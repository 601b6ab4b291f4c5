import Kortex.Model.Environment

/-
This file models `pii_detector.py`: the patterns, the checksums and the redaction.
-/

namespace Kortex

structure PiiMatch where
  kind : Str
  start : Nat
  stop : Nat
  value : Str
deriving DecidableEq

namespace PiiDetector

open Regex

variable (u : Unicode)

/-- The value of a digit that the pattern has already accepted. -/
def digitValue (c : Char) : Nat := (u.decimal c).getD 0

/-- This is `int(digits)`. -/
def intValue (digits : Str) : Nat := digits.foldl (fun n c => n * 10 + digitValue u c) 0

/-- This is one round of the loop of `luhn_valid`. -/
def luhnTerm (parity index : Nat) (c : Char) : Nat :=
  let value := digitValue u c
  if index % 2 = parity then (if value * 2 > 9 then value * 2 - 9 else value * 2) else value

def luhnValid (digits : Str) : Bool :=
  digits.all u.isDigit && decide (12 ≤ digits.length) && decide (digits.length ≤ 19) &&
    ((digits.mapIdx (luhnTerm u (digits.length % 2))).sum % 10 == 0)

def isUpper (c : Char) : Bool := decide ('A' ≤ c ∧ c ≤ 'Z')

def isUpperOrDigit (c : Char) : Bool := isUpper c || c.isDigit

/-- This is `str(int(c, 36))`; the digits of all scripts have their decimal value. -/
def base36 (c : Char) : Str :=
  Str.ofNat (if isUpper c then c.toNat - 'A'.toNat + 10 else digitValue u c)

/-- The candidate matched the pattern of an IBAN, so it is in upper case already. -/
def ibanValid (candidate : Str) : Bool :=
  let compact := candidate.filter (· != ' ')
  let shape := (compact.take 2).all isUpper && ((compact.drop 2).take 2).all u.isDigit &&
    (compact.drop 4).all isUpperOrDigit && decide (14 ≤ compact.length) &&
    decide (compact.length ≤ 34)
  shape && (intValue Unicode.ascii ((compact.drop 4 ++ compact.take 4).flatMap (base36 u)) % 97 == 1)

def ssnPlausible (candidate : Str) : Bool :=
  let digits := candidate.filter fun c => c != '-' && c != ' '
  let area := digits.take 3
  decide (digits.length = 9) && digits.all u.isDigit && area != "000".toList &&
    area != "666".toList && area.head? != some '9' && ((digits.drop 3).take 2) != "00".toList &&
    digits.drop 5 != "0000".toList

def range (lo hi : Char) (c : Char) : Bool := decide (lo ≤ c ∧ c ≤ hi)

def isLetter (c : Char) : Bool := range 'A' 'Z' c || range 'a' 'z' c

def isToken (c : Char) : Bool := isLetter c || c.isDigit || c == '_' || c == '-'

def atLeast (n : Nat) (accepts : Char → Bool) : Regex := many (.set accepts) n none false

def between (n m : Nat) (r : Regex) : Regex := many r n (some m) false

def exactly (n : Nat) (r : Regex) : Regex := between n n r

def oneOfChars (s : String) : Regex := .set fun c => s.toList.contains c

def email : Regex :=
  seqs [u.boundary, atLeast 1 fun c => u.isWord c || ".%+-".toList.contains c, chars ['@'],
    atLeast 1 fun c => isLetter c || c.isDigit || c == '.' || c == '-', chars ['.'],
    atLeast 2 isLetter, u.boundary]

def secretPrefixes : Regex :=
  seqs [u.boundary, alts [
    seqs [chars "sk-", atLeast 16 isToken],
    seqs [chars "sk-ant-", atLeast 16 isToken],
    seqs [chars "kx_", atLeast 16 isToken],
    seqs [chars "gh", oneOfChars "pousr", chars ['_'], atLeast 16 fun c => isLetter c || c.isDigit],
    seqs [chars "xox", oneOfChars "baprs", chars ['-'],
      atLeast 10 fun c => isLetter c || c.isDigit || c == '-'],
    seqs [chars "AKIA", exactly 16 (.set isUpperOrDigit)],
    seqs [chars "AIza", exactly 35 (.set isToken)],
    seqs [chars "glpat-", atLeast 20 isToken]], u.boundary]

def card : Regex :=
  seqs [u.boundary, u.digit, between 11 18 (seqs [optional (oneOfChars " -"), u.digit]), u.boundary]

def iban : Regex :=
  seqs [u.boundary, exactly 2 (.set isUpper), exactly 2 u.digit,
    between 2 7 (seqs [optional (chars [' ']), exactly 4 (.set isUpperOrDigit)]),
    optional (chars [' ']), between 1 4 (.set isUpperOrDigit), u.boundary]

def ssn : Regex :=
  seqs [u.boundary, exactly 3 u.digit, chars ['-'], exactly 2 u.digit, chars ['-'],
    exactly 4 u.digit, u.boundary]

def phone : Regex :=
  seqs [chars ['+'], between 1 3 u.digit, optional (oneOfChars " -"), optional (chars ['(']),
    between 2 4 u.digit, optional (chars [')']), optional (oneOfChars " -"), between 3 4 u.digit,
    optional (oneOfChars " -"), between 3 4 u.digit, u.boundary]

def ipv4 : Regex :=
  seqs [u.boundary, exactly 3 (seqs [between 1 3 u.digit, chars ['.']]), between 1 3 u.digit,
    u.boundary]

/-- The pattern of the private addresses is anchored at the start. -/
def privateV4 : Regex :=
  alts [chars "10.", chars "127.", chars "192.168.", chars "169.254.",
    seqs [chars "172.", alts [seqs [chars ['1'], .set (range '6' '9')], seqs [chars ['2'], u.digit],
      seqs [chars ['3'], oneOfChars "01"]], chars ['.']]]

def publicAddress (raw : Str) : Bool :=
  !((Str.split '.' raw).any fun octet => decide (255 < intValue u octet)) &&
    ((privateV4 u).matchLength? none raw).isNone

/-- This is one loop of `scan`: the matches of a pattern that pass its check. -/
def find (text : Str) (kind : Str) (r : Regex) (check : Str → Bool) : List PiiMatch :=
  ((r.finditer text).map fun span =>
    ⟨kind, span.1, span.2, (text.take span.2).drop span.1⟩).filter fun m => check m.value

/-- Matches are ordered by their start, and the longer one comes first. -/
def before (a b : PiiMatch) : Bool :=
  decide (a.start < b.start) || (a.start == b.start && decide (b.stop - b.start ≤ a.stop - a.start))

/-- This is `_dedupe_overlaps`. -/
def dedupeOverlaps (found : List PiiMatch) : List PiiMatch :=
  (found.insertionSort fun a b => before a b = true).foldl (fun kept m =>
    if kept.getLast?.any (fun last => decide (m.start < last.stop)) then kept else kept ++ [m]) []

/-- This is `scan`. -/
def scan (text : Str) : List PiiMatch :=
  if text = [] then []
  else dedupeOverlaps
    (find text "email" (email u) (fun _ => true) ++
      find text "secret" (secretPrefixes u) (fun _ => true) ++
      find text "card" (card u) (fun raw => luhnValid u (raw.filter fun c => c != ' ' && c != '-')) ++
      find text "iban" (iban u) (ibanValid u) ++
      find text "ssn" (ssn u) (ssnPlausible u) ++
      find text "phone" (phone u) (fun _ => true) ++
      find text "ip" (ipv4 u) (publicAddress u))

/-- This is `redact`: the matches are replaced from right to left. -/
def redact (text : Str) (found : List PiiMatch) : Str :=
  (found.insertionSort fun a b => b.start ≤ a.start).foldl (fun out m =>
    out.take m.start ++ "[redacted:" ++ m.kind ++ "]" ++ out.drop m.stop) text

/-- This is `summarise`: the counts by kind. -/
def summarise (found : List PiiMatch) : Dict Str Nat :=
  found.foldl (fun counts m => Dict.set counts m.kind ((Dict.get? counts m.kind).getD 0 + 1)) []

example : scan Unicode.ascii "mail a.b@c.io or 10.0.0.1".toList =
    [⟨"email", 5, 13, "a.b@c.io"⟩] := by decide +kernel

end PiiDetector
end Kortex
