import Kortex.Library.Dict
import Kortex.Library.Json
import Mathlib.Algebra.Order.Field.Rat
import Mathlib.Data.Rat.Defs

/-
This file models the decoder of Python's `json` module and gives its frame rule, and the numbers that Python
floats stand for.
-/

namespace Kortex.Json

/-- The decoder skips exactly these four characters between tokens. -/
def isWhitespace (c : Char) : Bool := c == ' ' || c == '\t' || c == '\n' || c == '\r'

def skipWhitespace (s : Str) : Str := s.dropWhile isWhitespace

def hexValue (c : Char) : Option Nat :=
  if '0' ≤ c ∧ c ≤ '9' then some (c.toNat - 48)
  else if 'a' ≤ c ∧ c ≤ 'f' then some (c.toNat - 87)
  else if 'A' ≤ c ∧ c ≤ 'F' then some (c.toNat - 55)
  else none

/-- This scanner reads four hexadecimal digits. -/
def scanUnit : Str → Option (Nat × Str)
  | a :: b :: c :: d :: rest => do
      let a ← hexValue a
      let b ← hexValue b
      let c ← hexValue c
      let d ← hexValue d
      return (a * 4096 + b * 256 + c * 16 + d, rest)
  | _ => none

/-- This scanner reads the escape after `\u`, with the second half of a surrogate pair.
A lone surrogate has no Unicode scalar value, so the model refuses it. -/
def scanUnicode (s : Str) : Option (Char × Str) :=
  match scanUnit s with
  | none => none
  | some (high, rest) =>
      if 0xd800 ≤ high ∧ high ≤ 0xdbff then
        match rest with
        | '\\' :: 'u' :: rest =>
            match scanUnit rest with
            | none => none
            | some (low, rest) =>
                if 0xdc00 ≤ low ∧ low ≤ 0xdfff then
                  some (Char.ofNat (0x10000 + (high - 0xd800) * 1024 + (low - 0xdc00)), rest)
                else none
        | _ => none
      else if 0xdc00 ≤ high ∧ high ≤ 0xdfff then none
      else some (Char.ofNat high, rest)

def simpleEscape (c : Char) : Option Char :=
  if c = '"' ∨ c = '\\' ∨ c = '/' then some c
  else if c = 'b' then some (Char.ofNat 0x08)
  else if c = 'f' then some (Char.ofNat 0x0c)
  else if c = 'n' then some '\n'
  else if c = 'r' then some '\r'
  else if c = 't' then some '\t'
  else none

/-- This scanner reads the closing quote or one character of a string literal. -/
def scanChar : Str → Option (Option Char × Str)
  | [] => none
  | '"' :: rest => some (none, rest)
  | '\\' :: 'u' :: rest => (scanUnicode rest).map fun (c, rest) => (some c, rest)
  | '\\' :: c :: rest => (simpleEscape c).map fun c => (some c, rest)
  | '\\' :: [] => none
  | c :: rest => if c.toNat < 0x20 then none else some (some c, rest)

/-- This is the strict `scanstring`, started after the opening quote. -/
def parseString : Nat → Str → Option (Str × Str)
  | 0, _ => none
  | fuel + 1, s =>
      match scanChar s with
      | none => none
      | some (none, rest) => some ([], rest)
      | some (some c, rest) => (parseString fuel rest).map fun (s, rest) => (c :: s, rest)

def digitsValue (digits : Str) : Nat := digits.foldl (fun n c => 10 * n + (c.toNat - 48)) 0

/-- This is `int(text)` for a text of the integer pattern. -/
def integerValue : Str → Int
  | '-' :: digits => -(digitsValue digits : Int)
  | digits => digitsValue digits

variable (round : FloatText → PyFloat)

/-- The decoder converts an integer text with `int` and any other number with `float`.
The parameter `round` is the conversion of a float literal. -/
def number (integer tail : Str) : Option Json :=
  if tail = [] then some (.int (integerValue integer))
  else if scanned : scanNumber (integer ++ tail) = some (integer, tail, []) ∧ tail ≠ [] then
    some (.float (round ⟨integer ++ tail, integer, tail, scanned.1, rfl, scanned.2⟩))
  else none

/-- The decoder tries a number before the constants that JSON does not have. -/
def parseNumber (s : Str) : Option (Json × Str) :=
  match scanNumber s with
  | some (integer, tail, rest) => (number round integer tail).map fun value => (value, rest)
  | none =>
      if "NaN".toList.isPrefixOf s then some (.float .nan, s.drop 3)
      else if "Infinity".toList.isPrefixOf s then some (.float (.inf false), s.drop 8)
      else if "-Infinity".toList.isPrefixOf s then some (.float (.inf true), s.drop 9)
      else none

mutual
/-- This is `scan_once`. -/
def parseValue : Nat → Str → Option (Json × Str)
  | 0, _ => none
  | fuel + 1, s =>
      match s with
      | '"' :: rest => (parseString fuel rest).map fun (s, rest) => (.str s, rest)
      | '{' :: rest =>
          match skipWhitespace rest with
          | '}' :: rest => some (.obj [], rest)
          | rest => (parseMembers fuel rest).map fun (members, rest) =>
              (.obj (Dict.ofPairs members), rest)
      | '[' :: rest =>
          match skipWhitespace rest with
          | ']' :: rest => some (.arr [], rest)
          | rest => (parseItems fuel rest).map fun (items, rest) => (.arr items, rest)
      | 'n' :: 'u' :: 'l' :: 'l' :: rest => some (.null, rest)
      | 't' :: 'r' :: 'u' :: 'e' :: rest => some (.bool true, rest)
      | 'f' :: 'a' :: 'l' :: 's' :: 'e' :: rest => some (.bool false, rest)
      | s => parseNumber round s

/-- This is the loop of `JSONArray`, started at an item. -/
def parseItems : Nat → Str → Option (List Json × Str)
  | 0, _ => none
  | fuel + 1, s =>
      match parseValue fuel s with
      | none => none
      | some (item, rest) =>
          match skipWhitespace rest with
          | ']' :: rest => some ([item], rest)
          | ',' :: rest => (parseItems fuel (skipWhitespace rest)).map fun (items, rest) =>
              (item :: items, rest)
          | _ => none

/-- This is the loop of `JSONObject`, started at a key. -/
def parseMembers : Nat → Str → Option (List (Str × Json) × Str)
  | 0, _ => none
  | fuel + 1, s =>
      match s with
      | '"' :: rest =>
          match parseString fuel rest with
          | none => none
          | some (key, rest) =>
              match skipWhitespace rest with
              | ':' :: rest =>
                  match parseValue fuel (skipWhitespace rest) with
                  | none => none
                  | some (value, rest) =>
                      match skipWhitespace rest with
                      | '}' :: rest => some ([(key, value)], rest)
                      | ',' :: rest =>
                          (parseMembers fuel (skipWhitespace rest)).map fun (members, rest) =>
                            ((key, value) :: members, rest)
                      | _ => none
              | _ => none
      | _ => none
end

/-- This is `json.loads`: one value with whitespace around it. -/
def loads (s : Str) : Option Json :=
  match parseValue round (s.length + 1) (skipWhitespace s) with
  | some (value, rest) => if skipWhitespace rest = [] then some value else none
  | none => none

end Kortex.Json

namespace Kortex

namespace FloatText

/-- The digits before and after the decimal point, and the exponent. -/
def parts (x : FloatText) : Str × Str × Int :=
  let unsigned := x.text.dropWhile (· == '-')
  let mantissa := unsigned.takeWhile fun c => c != 'e' && c != 'E'
  let exponent := (unsigned.dropWhile fun c => c != 'e' && c != 'E').drop 1
  (mantissa.takeWhile (· != '.'), (mantissa.dropWhile (· != '.')).drop 1,
    Json.integerValue (exponent.dropWhile (· == '+')))

/-- The number of decimal places when the number is written without an exponent. -/
def scale (x : FloatText) : Nat :=
  let (_, fraction, exponent) := x.parts
  ((fraction.length : Int) - exponent).toNat

/-- This is the decimal value of the text. -/
def value (x : FloatText) : ℚ :=
  let (whole, fraction, exponent) := x.parts
  let magnitude : ℚ := Json.digitsValue (whole ++ fraction) * (10 : ℚ) ^ (exponent - fraction.length)
  if x.text.head? = some '-' then -magnitude else magnitude

end FloatText

namespace PyFloat

/-- Two floats that are not NaN compare by this pair: infinity lies outside all numbers. -/
def rank : PyFloat → Option (Int × ℚ)
  | nan => none
  | inf true => some (-1, 0)
  | inf false => some (1, 0)
  | finite x => some (0, x.value)

def rankLe (a b : Int × ℚ) : Bool := a.1 < b.1 || (a.1 == b.1 && decide (a.2 ≤ b.2))

/-- This is the comparison `x < y`, which is false when one of the floats is NaN. -/
def lt (x y : PyFloat) : Bool :=
  match x.rank, y.rank with
  | some a, some b => !rankLe b a
  | _, _ => false

end PyFloat

/-- A literal of a number with a fraction. -/
def floatText (text : Str) (scanned : scanNumber text = some ((text.takeWhile (· != '.')),
    text.dropWhile (· != '.'), [])) (tail : text.dropWhile (· != '.') ≠ []) : FloatText :=
  ⟨text, _, _, scanned, (List.takeWhile_append_dropWhile ..).symm, tail⟩

theorem zero_scanned : scanNumber "0.0" =
    some (("0.0".toList.takeWhile (· != '.')), "0.0".toList.dropWhile (· != '.'), []) := by decide

theorem zero_tail : "0.0".toList.dropWhile (· != '.') ≠ [] := by decide

def zeroPointFive : PyFloat := .finite (floatText "0.5" (by decide) (by decide))

def zeroPointEightTwo : PyFloat := .finite (floatText "0.82" (by decide) (by decide))

def onePointZero : PyFloat := .finite (floatText "1.0" (by decide) (by decide))

example : (floatText "-12.50" (by decide) (by decide)).value = -25 / 2 := by decide +kernel

end Kortex
