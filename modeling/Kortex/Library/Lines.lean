import Kortex.Library.JsonRoundTrip

/-
This file models `str.splitlines` and gives the JSON Lines format over it.
-/

namespace Kortex

namespace Str

/-- This predicate holds exactly of the characters at which `str.splitlines` breaks a line. -/
def isLineBreak (c : Char) : Bool :=
  let n := c.toNat
  (0x0a ≤ n && n ≤ 0x0d) || (0x1c ≤ n && n ≤ 0x1e) || n == 0x85 || n == 0x2028 || n == 0x2029

/-- This is `str.splitlines`, which takes a carriage return and a line feed as one break. -/
def splitlines : Str → List Str
  | [] => []
  | '\r' :: '\n' :: rest => [] :: splitlines rest
  | c :: rest =>
      if isLineBreak c then [] :: splitlines rest
      else match splitlines rest with
        | [] => [[c]]
        | line :: lines => (c :: line) :: lines

theorem splitlines_cons (c : Char) (rest : Str) (inside : isLineBreak c = false) :
    splitlines (c :: rest) = match splitlines rest with
      | [] => [[c]]
      | line :: lines => (c :: line) :: lines := by
  have notReturn : c ≠ '\r' := by
    rintro rfl
    simp [isLineBreak] at inside
  rw [splitlines]
  · rw [if_neg (by simp [inside])]
  · rintro tail rfl
    exact absurd rfl notReturn

theorem splitlines_newline (line rest : Str) (free : ∀ c ∈ line, isLineBreak c = false) :
    splitlines (line ++ '\n' :: rest) = line :: splitlines rest := by
  induction line with
  | nil => simp [splitlines, isLineBreak]
  | cons c line ih =>
      rw [List.cons_append, splitlines_cons c _ (free c (by simp)),
        ih fun d present => free d (by simp [present])]

theorem splitlines_free (line : Str) (nonempty : line ≠ [])
    (free : ∀ c ∈ line, isLineBreak c = false) : splitlines line = [line] := by
  induction line with
  | nil => exact absurd rfl nonempty
  | cons c line ih =>
      rw [splitlines_cons c _ (free c (by simp))]
      by_cases last : line = []
      · subst last; rfl
      · rw [ih last fun d present => free d (by simp [present])]

/-- The first line ends at the first break, whichever break it is. -/
theorem splitlines_break (line rest : Str) (c : Char) (free : ∀ d ∈ line, isLineBreak d = false)
    (breaks : isLineBreak c = true) : ∃ lines, splitlines (line ++ c :: rest) = line :: lines := by
  induction line with
  | nil =>
      rw [List.nil_append]
      unfold splitlines
      split
      · rename_i empty; simp at empty
      · exact ⟨_, rfl⟩
      · rename_i d tail _ same
        obtain ⟨rfl, rfl⟩ := List.cons.inj same
        exact ⟨splitlines rest, if_pos breaks⟩
  | cons d line ih =>
      obtain ⟨lines, split⟩ := ih fun e present => free e (by simp [present])
      exact ⟨lines, by rw [List.cons_append, splitlines_cons d _ (free d (by simp)), split]⟩

theorem isSpace_of_isLineBreak (c : Char) (breaks : isLineBreak c = true) : isSpace c = true := by
  simp only [isLineBreak, isSpace, Bool.or_eq_true, Bool.and_eq_true, decide_eq_true_eq,
    beq_iff_eq] at breaks ⊢
  omega

end Str

namespace Json

variable (round : FloatText → PyFloat)

/-- The reader parses each line that is not blank; an exception of the decoder is `none`. -/
def readLines : List Str → Option (List Json)
  | [] => some []
  | line :: rest =>
      if Str.strip line = [] then readLines rest
      else match loads round (Str.strip line) with
        | none => none
        | some row => (readLines rest).map fun rows => row :: rows

mutual
/-- This predicate tests every character of every string and key of a value. -/
def anyChar (P : Char → Bool) : Json → Bool
  | .str s => s.any P
  | .arr items => anyCharItems P items
  | .obj members => anyCharMembers P members
  | _ => false

def anyCharItems (P : Char → Bool) : List Json → Bool
  | [] => false
  | item :: rest => anyChar P item || anyCharItems P rest

def anyCharMembers (P : Char → Bool) : List (Str × Json) → Bool
  | [] => false
  | (key, value) :: rest => key.any P || anyChar P value || anyCharMembers P rest
end

/-- The printable ASCII characters are those that the encoder may write on its own account. -/
def isPlain (c : Char) : Bool := 0x20 ≤ c.toNat && c.toNat ≤ 0x7e

/-- A test that no printable ASCII character passes. -/
def Exotic (P : Char → Bool) : Prop := ∀ c, isPlain c = true → P c = false

theorem any_plain {P : Char → Bool} (exotic : Exotic P) (s : Str)
    (plain : s.all isPlain = true) : s.any P = false := by
  rw [List.any_eq_false]
  intro c present
  simp [exotic c (List.all_eq_true.mp plain c present)]

theorem isPlain_of_isDigit (c : Char) (digit : c.isDigit = true) : isPlain c = true := by
  simp only [Char.isDigit, Bool.and_eq_true, decide_eq_true_eq, ge_iff_le] at digit
  simp only [isPlain, Bool.and_eq_true, decide_eq_true_eq]
  have lower : (48 : UInt32).toNat ≤ c.val.toNat := digit.1
  have upper : c.val.toNat ≤ (57 : UInt32).toNat := digit.2
  have small : (48 : UInt32).toNat = 48 ∧ (57 : UInt32).toNat = 57 := by decide
  change 0x20 ≤ c.val.toNat ∧ c.val.toNat ≤ 0x7e
  omega

theorem plain_ofInt (i : Int) : (Str.ofInt i).all isPlain = true := by
  have natural : ∀ n, (Str.ofNat n).all isPlain = true := by
    intro n
    by_cases zero : n = 0
    · subst zero; decide
    · obtain ⟨c, digits, text, _, allDigits, _⟩ := ofNat_digits n zero
      rw [text, List.all_eq_true]
      exact fun d present => isPlain_of_isDigit d (allDigits d present)
  cases i with
  | ofNat n => exact natural n
  | negSucc n =>
      have head : isPlain '-' = true := by decide
      simp only [Str.ofInt, List.all_cons, head, natural, Bool.and_self]

theorem plain_scanDigits (s : Str) : (scanDigits s).1.all isPlain = true := by
  rw [List.all_eq_true]
  intro c present
  exact isPlain_of_isDigit c (List.mem_takeWhile_imp present)

theorem plain_scanUnsigned (s integer rest : Str) (scanned : scanUnsigned s = some (integer, rest)) :
    integer.all isPlain = true := by
  unfold scanUnsigned at scanned
  split at scanned
  · simp only [Option.some.injEq, Prod.mk.injEq] at scanned
    rw [← scanned.1]
    decide
  · split at scanned
    · rename_i c tail _ _
      have plain := plain_scanDigits (c :: tail)
      rwa [Option.some.inj scanned] at plain
    · simp at scanned
  · simp at scanned

theorem plain_scanInteger (s integer rest : Str) (scanned : scanInteger s = some (integer, rest)) :
    integer.all isPlain = true := by
  unfold scanInteger at scanned
  split at scanned
  · simp only [Option.map_eq_some_iff, Prod.mk.injEq, Prod.exists] at scanned
    obtain ⟨digits, _, unsigned, rfl, rfl⟩ := scanned
    have head : isPlain '-' = true := by decide
    rw [List.all_cons, head, plain_scanUnsigned _ _ _ unsigned]
    rfl
  · exact plain_scanUnsigned _ _ _ scanned

theorem plain_scanFraction (s : Str) : (scanFraction s).1.all isPlain = true := by
  unfold scanFraction
  split
  · split
    · rfl
    · have head : isPlain '.' = true := by decide
      rw [List.all_cons, head, plain_scanDigits]
      rfl
  · rfl

theorem plain_scanExponent (s : Str) : (scanExponent s).1.all isPlain = true := by
  unfold scanExponent
  split
  · rfl
  · rename_i c rest
    split
    · rename_i exponent
      have head : isPlain c = true := by rcases exponent.1 with rfl | rfl <;> decide
      have sign : (scanSign rest).1.all isPlain = true := by
        unfold scanSign
        split <;> rfl
      simp only [List.cons_append, List.all_cons, List.all_append, head, sign, plain_scanDigits,
        Bool.and_self]
    · rfl

theorem plain_floatText (repr : FloatText) : repr.text.all isPlain = true := by
  obtain ⟨integer, tail, scanned, whole, _⟩ := repr.scanned
  simp only [scanNumber, Option.map_eq_some_iff, Prod.mk.injEq, Prod.exists] at scanned
  obtain ⟨integer', rest, integerScan, rfl, rfl, _⟩ := scanned
  rw [whole, List.all_append, List.all_append, plain_scanInteger _ _ _ integerScan,
    plain_scanFraction, plain_scanExponent]
  rfl

theorem plain_text (x : PyFloat) : x.text.all isPlain = true := by
  match x with
  | .nan | .inf true | .inf false => decide
  | .finite repr => exact plain_floatText repr

theorem any_unicodeEscape {P : Char → Bool} (exotic : Exotic P) (n : Nat) :
    (unicodeEscape n).any P = false := by
  have digit : ∀ n, P (hexDigit n) = false := by
    intro n
    have all : ∀ d, d < 16 → isPlain (Nat.digitChar d) = true := by decide
    exact exotic _ (all (n % 16) (Nat.mod_lt _ (by omega)))
  have unit : ∀ n, (unitEscape n).any P = false := by
    intro n
    simp [unitEscape, digit, exotic '\\' (by decide), exotic 'u' (by decide)]
  unfold unicodeEscape
  split
  · exact unit n
  · rw [List.any_append, unit, unit]
    rfl

/-- Without `ensure_ascii` a character is written as it is unless it is a control character. -/
theorem any_escapeChar {P : Char → Bool} (exotic : Exotic P) (c : Char) :
    (escapeChar false c).any P = (P c && decide (0x20 ≤ c.toNat)) := by
  have plain : ∀ d, isPlain d = true → P d = false := exotic
  have backslash := exotic '\\' (by decide)
  unfold escapeChar
  by_cases control : c.toNat < 0x20
  · have small : decide (0x20 ≤ c.toNat) = false := by simpa using control
    have notQuote : c ≠ '"' := by rintro rfl; simp at control
    have notBackslash : c ≠ '\\' := by rintro rfl; simp at control
    simp only [notQuote, notBackslash, if_false, small, Bool.and_false]
    repeat' split
    all_goals first
      | exact any_unicodeEscape exotic _
      | simp [backslash, exotic 'n' (by decide), exotic 'r' (by decide), exotic 't' (by decide),
          exotic 'f' (by decide), exotic 'b' (by decide)]
  · have large : decide (0x20 ≤ c.toNat) = true := by simpa using control
    have notNewline : c ≠ '\n' := by rintro rfl; simp at control
    have notReturn : c ≠ '\r' := by rintro rfl; simp at control
    have notTab : c ≠ '\t' := by rintro rfl; simp at control
    have notFeed : c.toNat ≠ 0x0c := by omega
    have notBackspace : c.toNat ≠ 0x08 := by omega
    simp only [large, Bool.and_true, notNewline, notReturn, notTab, notFeed, notBackspace, control,
      if_false, Bool.false_eq_true, false_and]
    split
    · rename_i same; subst same; simp [backslash, exotic '"' (by decide)]
    · split
      · rename_i same; subst same; simp [backslash]
      · simp

theorem any_quote {P : Char → Bool} (exotic : Exotic P) (compact : Bool) (s : Str) :
    (quote ⟨false, compact⟩ s).any P = s.any fun c => P c && decide (0x20 ≤ c.toNat) := by
  have mark := exotic '"' (by decide)
  simp only [quote, List.cons_append, List.any_cons, List.any_append, List.any_flatMap, mark,
    any_escapeChar exotic, List.any_nil, Bool.false_or, Bool.or_false]

theorem any_separators {P : Char → Bool} (exotic : Exotic P) (style : Style) :
    style.itemSeparator.any P = false ∧ style.keySeparator.any P = false := by
  obtain ⟨ensureAscii, compact⟩ := style
  cases compact <;> exact ⟨any_plain exotic _ rfl, any_plain exotic _ rfl⟩

mutual
/-- The exotic characters of the text of a value are those of its strings and keys. -/
theorem any_dumps {P : Char → Bool} (exotic : Exotic P) (compact : Bool) : (value : Json) →
    (dumps ⟨false, compact⟩ value).any P =
      anyChar (fun c => P c && decide (0x20 ≤ c.toNat)) value
  | .null => by rw [dumps, anyChar]; exact any_plain exotic _ (by decide); all_goals simp
  | .bool true => by rw [dumps, anyChar]; exact any_plain exotic _ (by decide); all_goals simp
  | .bool false => by rw [dumps, anyChar]; exact any_plain exotic _ (by decide); all_goals simp
  | .int i => by rw [dumps, anyChar]; exact any_plain exotic _ (plain_ofInt i); all_goals simp
  | .float x => by rw [dumps, anyChar]; exact any_plain exotic _ (plain_text x); all_goals simp
  | .str s => by rw [dumps, anyChar, any_quote exotic]
  | .arr [] => by
      rw [dumps, anyChar, anyCharItems]
      exact any_plain exotic _ (by decide)
  | .arr (item :: rest) => by
      have items := any_dumpsItems exotic compact rest
      simp only [dumps, anyChar, anyCharItems, List.any_cons, List.any_append,
        exotic '[' (by decide), any_dumps exotic compact item, items, Bool.false_or]
  | .obj [] => by
      rw [dumps, anyChar, anyCharMembers]
      exact any_plain exotic _ (by decide)
  | .obj ((key, value) :: rest) => by
      have separators := any_separators exotic ⟨false, compact⟩
      have members := any_dumpsMembers exotic compact rest
      simp only [dumps, anyChar, anyCharMembers, List.any_cons, List.any_append,
        exotic '{' (by decide), any_quote exotic, separators, any_dumps exotic compact value,
        members, Bool.false_or, Bool.or_assoc]

theorem any_dumpsItems {P : Char → Bool} (exotic : Exotic P) (compact : Bool) :
    (items : List Json) → (dumpsItems ⟨false, compact⟩ items).any P =
      anyCharItems (fun c => P c && decide (0x20 ≤ c.toNat)) items
  | [] => by
      rw [dumpsItems, anyCharItems]
      exact any_plain exotic _ (by decide)
  | item :: rest => by
      have separators := any_separators exotic ⟨false, compact⟩
      simp only [dumpsItems, anyCharItems, List.any_append, separators,
        any_dumps exotic compact item, any_dumpsItems exotic compact rest, Bool.false_or]

theorem any_dumpsMembers {P : Char → Bool} (exotic : Exotic P) (compact : Bool) :
    (members : List (Str × Json)) → (dumpsMembers ⟨false, compact⟩ members).any P =
      anyCharMembers (fun c => P c && decide (0x20 ≤ c.toNat)) members
  | [] => by
      rw [dumpsMembers, anyCharMembers]
      exact any_plain exotic _ (by decide)
  | (key, value) :: rest => by
      have separators := any_separators exotic ⟨false, compact⟩
      simp only [dumpsMembers, anyCharMembers, List.any_append, separators, any_quote exotic,
        any_dumps exotic compact value, any_dumpsMembers exotic compact rest, Bool.false_or,
        Bool.or_assoc]
end

/-- With `ensure_ascii` every character is written in printable ASCII. -/
theorem any_escapeChar_ascii {P : Char → Bool} (exotic : Exotic P) (c : Char) :
    (escapeChar true c).any P = false := by
  unfold escapeChar
  repeat' split
  all_goals first
    | exact any_unicodeEscape exotic _
    | exact any_plain exotic _ (by decide)
    | skip
  rename_i control wide
  have small : 0x20 ≤ c.toNat ∧ c.toNat ≤ 0x7e := by
    refine ⟨Nat.le_of_not_lt control, Nat.le_of_not_lt fun high => wide ⟨rfl, high⟩⟩
  rw [List.any_cons, List.any_nil, Bool.or_false]
  exact exotic c (by simp [isPlain, small])

theorem any_quote_ascii {P : Char → Bool} (exotic : Exotic P) (compact : Bool) (s : Str) :
    (quote ⟨true, compact⟩ s).any P = false := by
  simp [quote, List.any_flatMap, exotic '"' (by decide), any_escapeChar_ascii exotic]

mutual
/-- With `ensure_ascii` the text of a value has no exotic character. -/
theorem any_dumps_ascii {P : Char → Bool} (exotic : Exotic P) (compact : Bool) : (value : Json) →
    (dumps ⟨true, compact⟩ value).any P = false
  | .null => by rw [dumps]; exact any_plain exotic _ (by decide)
  | .bool true => by rw [dumps]; exact any_plain exotic _ (by decide)
  | .bool false => by rw [dumps]; exact any_plain exotic _ (by decide)
  | .int i => by rw [dumps]; exact any_plain exotic _ (plain_ofInt i)
  | .float x => by rw [dumps]; exact any_plain exotic _ (plain_text x)
  | .str s => by rw [dumps, any_quote_ascii exotic]
  | .arr [] => by rw [dumps]; exact any_plain exotic _ (by decide)
  | .arr (item :: rest) => by
      simp only [dumps, List.any_cons, List.any_append, exotic '[' (by decide),
        any_dumps_ascii exotic compact item, any_dumpsItems_ascii exotic compact rest, Bool.or_self]
  | .obj [] => by rw [dumps]; exact any_plain exotic _ (by decide)
  | .obj ((key, value) :: rest) => by
      simp only [dumps, List.any_cons, List.any_append, exotic '{' (by decide),
        any_quote_ascii exotic, (any_separators exotic ⟨true, compact⟩).2,
        any_dumps_ascii exotic compact value, any_dumpsMembers_ascii exotic compact rest, Bool.or_self]

theorem any_dumpsItems_ascii {P : Char → Bool} (exotic : Exotic P) (compact : Bool) :
    (items : List Json) → (dumpsItems ⟨true, compact⟩ items).any P = false
  | [] => by rw [dumpsItems]; exact any_plain exotic _ (by decide)
  | item :: rest => by
      simp only [dumpsItems, List.any_append, (any_separators exotic ⟨true, compact⟩).1,
        any_dumps_ascii exotic compact item, any_dumpsItems_ascii exotic compact rest, Bool.or_self]

theorem any_dumpsMembers_ascii {P : Char → Bool} (exotic : Exotic P) (compact : Bool) :
    (members : List (Str × Json)) → (dumpsMembers ⟨true, compact⟩ members).any P = false
  | [] => by rw [dumpsMembers]; exact any_plain exotic _ (by decide)
  | (key, value) :: rest => by
      simp only [dumpsMembers, List.any_append, any_separators exotic ⟨true, compact⟩,
        any_quote_ascii exotic, any_dumps_ascii exotic compact value,
        any_dumpsMembers_ascii exotic compact rest, Bool.or_self]
end

end Json
end Kortex
