import Kortex.Library.Text

/-
This file models the JSON values and the encoder of Python's `json` module.
-/

namespace Kortex

/-- This scanner reads the longest run of ASCII digits. -/
def scanDigits (s : Str) : Str × Str := (s.takeWhile Char.isDigit, s.dropWhile Char.isDigit)

/-- The integer part without its sign is `0|[1-9][0-9]*`. -/
def scanUnsigned : Str → Option (Str × Str)
  | '0' :: rest => some (['0'], rest)
  | c :: rest => if c.isDigit then some (scanDigits (c :: rest)) else none
  | [] => none

/-- The integer part is `-?(0|[1-9][0-9]*)`. -/
def scanInteger : Str → Option (Str × Str)
  | '-' :: rest => (scanUnsigned rest).map fun scanned => ('-' :: scanned.1, scanned.2)
  | s => scanUnsigned s

/-- The fraction is `(\.[0-9]+)?`. -/
def scanFraction : Str → Str × Str
  | '.' :: rest =>
      if (scanDigits rest).1 = [] then ([], '.' :: rest)
      else ('.' :: (scanDigits rest).1, (scanDigits rest).2)
  | s => ([], s)

/-- The sign of an exponent is `[-+]?`. -/
def scanSign : Str → Str × Str
  | '-' :: rest => (['-'], rest)
  | '+' :: rest => (['+'], rest)
  | s => ([], s)

/-- The exponent is `([eE][-+]?[0-9]+)?`. -/
def scanExponent : Str → Str × Str
  | [] => ([], [])
  | c :: rest =>
      if (c = 'e' ∨ c = 'E') ∧ (scanDigits (scanSign rest).2).1 ≠ [] then
        (c :: (scanSign rest).1 ++ (scanDigits (scanSign rest).2).1,
          (scanDigits (scanSign rest).2).2)
      else ([], c :: rest)

/-- The scan of a number returns its integer part, the rest of its text and what follows. -/
def scanNumber (s : Str) : Option (Str × Str × Str) :=
  (scanInteger s).map fun (integer, rest) =>
    let fraction := scanFraction rest
    let exponent := scanExponent fraction.2
    (integer, fraction.1 ++ exponent.1, exponent.2)

/-- A float literal is a JSON number with a fraction or an exponent. -/
structure FloatText where
  text : Str
  scanned : ∃ integer tail, scanNumber text = some (integer, tail, []) ∧
    text = integer ++ tail ∧ tail ≠ []

instance : DecidableEq FloatText := fun x y =>
  decidable_of_iff (x.text = y.text) ⟨fun same => by cases x; cases y; simp_all, fun same => by rw [same]⟩

/-- A Python float is a special value, or the value whose `repr` is the text. -/
inductive PyFloat where
  | nan
  | inf (negative : Bool)
  | finite (repr : FloatText)
deriving DecidableEq

/-- This is the text that `float.__repr__` and `json.dumps` give to a float. -/
def PyFloat.text : PyFloat → Str
  | .nan => "NaN"
  | .inf false => "Infinity"
  | .inf true => "-Infinity"
  | .finite repr => repr.text

/-- A value that `json.dumps` accepts, with the given type of object keys. -/
inductive Value (K : Type) where
  | null
  | bool (b : Bool)
  | int (i : Int)
  | float (x : PyFloat)
  | str (s : Str)
  | arr (items : List (Value K))
  | obj (members : List (K × Value K))

/-- The values that `json.loads` returns have string keys. -/
abbrev Json := Value Str

namespace Json

def hexDigit (n : Nat) : Char := Nat.digitChar (n % 16)

/-- The escape of one UTF-16 unit has four lower-case hexadecimal digits. -/
def unitEscape (n : Nat) : Str :=
  ['\\', 'u', hexDigit (n / 4096), hexDigit (n / 256), hexDigit (n / 16), hexDigit n]

/-- A character outside the basic plane is written as a surrogate pair. -/
def unicodeEscape (n : Nat) : Str :=
  if n < 0x10000 then unitEscape n
  else unitEscape (0xd800 + (n - 0x10000) / 1024) ++ unitEscape (0xdc00 + (n - 0x10000) % 1024)

/-- The encoder escapes the quote, the backslash and the control characters.
With `ensure_ascii` it also escapes everything that is not printable ASCII. -/
def escapeChar (ensureAscii : Bool) (c : Char) : Str :=
  if c = '"' then ['\\', '"']
  else if c = '\\' then ['\\', '\\']
  else if c = '\n' then ['\\', 'n']
  else if c = '\r' then ['\\', 'r']
  else if c = '\t' then ['\\', 't']
  else if c.toNat = 0x0c then ['\\', 'f']
  else if c.toNat = 0x08 then ['\\', 'b']
  else if c.toNat < 0x20 then unicodeEscape c.toNat
  else if ensureAscii = true ∧ 0x7e < c.toNat then unicodeEscape c.toNat
  else [c]

/-- The options of `json.dumps` that the repository uses. -/
structure Style where
  ensureAscii : Bool := true
  /-- The compact separators are `,` and `:`; the default ones add a space. -/
  compact : Bool := false

def Style.itemSeparator (style : Style) : Str := if style.compact then "," else ", "

def Style.keySeparator (style : Style) : Str := if style.compact then ":" else ": "

def quote (style : Style) (s : Str) : Str :=
  '"' :: s.flatMap (escapeChar style.ensureAscii) ++ ['"']

mutual
/-- This is `json.dumps` without an indent. -/
def dumps (style : Style) : Json → Str
  | .null => "null"
  | .bool true => "true"
  | .bool false => "false"
  | .int i => Str.ofInt i
  | .float x => x.text
  | .str s => quote style s
  | .arr [] => "[]"
  | .arr (item :: rest) => '[' :: (dumps style item ++ dumpsItems style rest)
  | .obj [] => "\x7b\x7d"
  | .obj ((key, value) :: rest) =>
      '{' :: (quote style key ++ (style.keySeparator ++ (dumps style value ++ dumpsMembers style rest)))

/-- The encoder writes a separator before each further item and then closes the array. -/
def dumpsItems (style : Style) : List Json → Str
  | [] => "]"
  | item :: rest => style.itemSeparator ++ (dumps style item ++ dumpsItems style rest)

/-- The encoder writes a separator before each further member and then closes the object. -/
def dumpsMembers (style : Style) : List (Str × Json) → Str
  | [] => "\x7d"
  | (key, value) :: rest => style.itemSeparator ++ (quote style key ++ (style.keySeparator ++
      (dumps style value ++ dumpsMembers style rest)))
end

end Json
end Kortex
