import Kortex.Library.JsonDecode

/-
This file proves that the decoder does not look beyond the value that it reads.
-/

namespace Kortex.Json

/-- A number ends before this text. -/
def stops : Str → Bool
  | [] => true
  | c :: _ => !(c.isDigit || c == '.' || c == 'e' || c == 'E')

/-- A digit run does not depend on what follows its end. -/
theorem scanDigits_append (s t digits rest : Str) (scanned : scanDigits s = (digits, rest))
    (ends : ∀ c ∈ (rest ++ t).head?, c.isDigit = false) :
    scanDigits (s ++ t) = (digits, rest ++ t) := by
  induction s generalizing digits with
  | nil =>
      simp only [scanDigits, List.takeWhile_nil, List.dropWhile_nil, Prod.mk.injEq] at scanned
      obtain ⟨rfl, rfl⟩ := scanned
      simp only [List.nil_append] at ends ⊢
      cases t with
      | nil => rfl
      | cons c t => simp [scanDigits, ends c rfl]
  | cons c s ih =>
      by_cases digit : c.isDigit = true
      · simp only [scanDigits, List.takeWhile_cons, digit, if_true, List.dropWhile_cons,
          Prod.mk.injEq] at scanned
        obtain ⟨rfl, tail⟩ := scanned
        have tailScan := ih (s.takeWhile Char.isDigit) (by simp [scanDigits, tail])
        simp only [scanDigits, Prod.mk.injEq] at tailScan
        simp [scanDigits, digit, tailScan]
      · simp only [scanDigits, List.takeWhile_cons, digit, List.dropWhile_cons,
          Prod.mk.injEq] at scanned
        obtain ⟨rfl, rfl⟩ := scanned
        simp [scanDigits, digit]

theorem stops_head (s : Str) (stop : stops s = true) (c : Char) (head : c ∈ s.head?) :
    c.isDigit = false ∧ c ≠ '.' ∧ c ≠ 'e' ∧ c ≠ 'E' := by
  cases s with
  | nil => simp at head
  | cons d s =>
      simp only [List.head?_cons, Option.mem_def, Option.some.injEq] at head
      subst head
      simpa [stops, and_assoc] using stop

theorem scanUnsigned_append (s t integer rest : Str)
    (scanned : scanUnsigned s = some (integer, rest))
    (ends : ∀ c ∈ (rest ++ t).head?, c.isDigit = false) :
    scanUnsigned (s ++ t) = some (integer, rest ++ t) := by
  unfold scanUnsigned at scanned
  split at scanned
  · simp only [Option.some.injEq, Prod.mk.injEq] at scanned
    obtain ⟨rfl, rfl⟩ := scanned
    rfl
  · rename_i c rest' notZero
    split at scanned
    · rename_i digit
      have continued := scanDigits_append (c :: rest') t integer rest (by simpa using scanned) ends
      rw [List.cons_append] at continued ⊢
      unfold scanUnsigned
      split
      · rename_i same
        simp only [List.cons.injEq] at same
        exact absurd same.1 notZero
      · rename_i same
        simp only [List.cons.injEq] at same
        obtain ⟨rfl, rfl⟩ := same
        rw [if_pos digit, continued]
      · contradiction
    · simp at scanned
  · simp at scanned

theorem scanInteger_append (s t integer rest : Str)
    (scanned : scanInteger s = some (integer, rest))
    (ends : ∀ c ∈ (rest ++ t).head?, c.isDigit = false) :
    scanInteger (s ++ t) = some (integer, rest ++ t) := by
  unfold scanInteger at scanned
  split at scanned
  · rename_i rest'
    simp only [Option.map_eq_some_iff, Prod.mk.injEq, Prod.exists] at scanned
    obtain ⟨digits, tail, unsigned, rfl, rfl⟩ := scanned
    simp [scanInteger, scanUnsigned_append rest' t digits tail unsigned ends]
  · rename_i positive
    have continued := scanUnsigned_append s t integer rest scanned ends
    cases s with
    | nil => simp [scanUnsigned] at scanned
    | cons c s =>
        rw [List.cons_append] at continued ⊢
        unfold scanInteger
        split
        · rename_i same
          simp only [List.cons.injEq] at same
          exact absurd (by rw [same.1]) (positive s)
        · exact continued

theorem scanExponent_append (s t exponent rest : Str)
    (scanned : scanExponent s = (exponent, rest)) (stop : stops (rest ++ t) = true) :
    scanExponent (s ++ t) = (exponent, rest ++ t) := by
  cases s with
  | nil =>
      simp only [scanExponent, Prod.mk.injEq] at scanned
      obtain ⟨rfl, rfl⟩ := scanned
      cases t with
      | nil => rfl
      | cons c t =>
          have head := stops_head _ stop c rfl
          simp [scanExponent, head]
  | cons c s =>
      rw [scanExponent] at scanned
      split at scanned
      · rename_i isExponent
        simp only [Prod.mk.injEq] at scanned
        obtain ⟨rfl, rfl⟩ := scanned
        have sign : scanSign (s ++ t) = ((scanSign s).1, (scanSign s).2 ++ t) := by
          cases s with
          | nil => simp [scanSign, scanDigits] at isExponent
          | cons d s =>
              by_cases minus : d = '-'
              · subst minus; rfl
              by_cases plus : d = '+'
              · subst plus; rfl
              simp [scanSign, minus, plus]
        have digits := scanDigits_append (scanSign s).2 t (scanDigits (scanSign s).2).1
          (scanDigits (scanSign s).2).2 rfl (fun c head => (stops_head _ stop c head).1)
        rw [List.cons_append, scanExponent, sign, digits, if_pos isExponent]
      · rename_i notExponent
        simp only [Prod.mk.injEq] at scanned
        obtain ⟨rfl, rfl⟩ := scanned
        have head := stops_head _ stop c rfl
        rw [List.cons_append, scanExponent, if_neg (by simp [head])]

/-- The text that an exponent scan reads does not continue a fraction. -/
theorem scanExponent_head (s t exponent rest : Str)
    (scanned : scanExponent s = (exponent, rest)) (stop : stops (rest ++ t) = true) :
    ∀ c ∈ (s ++ t).head?, c.isDigit = false ∧ c ≠ '.' := by
  cases s with
  | nil =>
      simp only [scanExponent, Prod.mk.injEq] at scanned
      obtain ⟨rfl, rfl⟩ := scanned
      intro c head
      have stopped := stops_head _ stop c head
      exact ⟨stopped.1, stopped.2.1⟩
  | cons d s =>
      intro c head
      simp only [List.cons_append, List.head?_cons, Option.mem_def, Option.some.injEq] at head
      subst head
      rw [scanExponent] at scanned
      split at scanned
      · rename_i isExponent
        rcases isExponent.1 with rfl | rfl <;> decide
      · simp only [Prod.mk.injEq] at scanned
        obtain ⟨rfl, rfl⟩ := scanned
        have stopped := stops_head _ stop d rfl
        exact ⟨stopped.1, stopped.2.1⟩

theorem scanFraction_append (s t fraction rest : Str)
    (scanned : scanFraction s = (fraction, rest))
    (ends : ∀ c ∈ (rest ++ t).head?, c.isDigit = false ∧ c ≠ '.') :
    scanFraction (s ++ t) = (fraction, rest ++ t) ∧
      ∀ c ∈ (s ++ t).head?, c.isDigit = false := by
  cases s with
  | nil =>
      simp only [scanFraction, Prod.mk.injEq] at scanned
      obtain ⟨rfl, rfl⟩ := scanned
      refine ⟨?_, fun c head => (ends c head).1⟩
      cases t with
      | nil => rfl
      | cons c t =>
          have notPoint := (ends c rfl).2
          simp [scanFraction, notPoint]
  | cons d s =>
      by_cases point : d = '.'
      · subst point
        rw [scanFraction] at scanned
        refine ⟨?_, by simp⟩
        split at scanned
        · simp only [Prod.mk.injEq] at scanned
          obtain ⟨rfl, rfl⟩ := scanned
          exact absurd rfl (ends '.' rfl).2
        · rename_i digits
          simp only [Prod.mk.injEq] at scanned
          obtain ⟨rfl, rfl⟩ := scanned
          have continued := scanDigits_append s t (scanDigits s).1 (scanDigits s).2 rfl
            (fun c head => (ends c head).1)
          rw [List.cons_append, scanFraction, continued, if_neg digits]
      · have unchanged : scanFraction (d :: s) = ([], d :: s) := by simp [scanFraction, point]
        rw [unchanged, Prod.mk.injEq] at scanned
        obtain ⟨rfl, rfl⟩ := scanned
        exact ⟨by simp [scanFraction, point], fun c head => (ends c head).1⟩

/-- The scan of a number is the same in a longer text unless the number continues. -/
theorem scanNumber_append (s t integer tail rest : Str)
    (scanned : scanNumber s = some (integer, tail, rest)) (stop : stops (rest ++ t) = true) :
    scanNumber (s ++ t) = some (integer, tail, rest ++ t) := by
  simp only [scanNumber, Option.map_eq_some_iff, Prod.mk.injEq, Prod.exists] at scanned
  obtain ⟨whole, afterInteger, integerScan, rfl, rfl, rfl⟩ := scanned
  let afterFraction := (scanFraction afterInteger).2
  have exponent := scanExponent_append afterFraction t (scanExponent afterFraction).1
    (scanExponent afterFraction).2 rfl stop
  have exponentHead := scanExponent_head afterFraction t (scanExponent afterFraction).1
    (scanExponent afterFraction).2 rfl stop
  have fraction := scanFraction_append afterInteger t (scanFraction afterInteger).1 afterFraction
    rfl exponentHead
  have integer := scanInteger_append s t whole afterInteger integerScan fraction.2
  simp [scanNumber, integer, fraction.1, exponent, afterFraction]

theorem skipWhitespace_append (s t : Str) (c : Char) (rest : Str)
    (skipped : skipWhitespace s = c :: rest) : skipWhitespace (s ++ t) = c :: (rest ++ t) := by
  unfold skipWhitespace at skipped ⊢
  rw [List.dropWhile_append, skipped]
  rfl

theorem scanUnit_append (s t : Str) (n : Nat) (rest : Str)
    (scanned : scanUnit s = some (n, rest)) : scanUnit (s ++ t) = some (n, rest ++ t) := by
  unfold scanUnit at scanned
  split at scanned
  · rename_i a b c d rest'
    simp only [List.cons_append, scanUnit]
    revert scanned
    cases hexValue a <;> cases hexValue b <;> cases hexValue c <;> cases hexValue d <;> simp
  · simp at scanned

theorem scanUnicode_append (s t : Str) (c : Char) (rest : Str)
    (scanned : scanUnicode s = some (c, rest)) : scanUnicode (s ++ t) = some (c, rest ++ t) := by
  unfold scanUnicode at scanned ⊢
  split at scanned
  · simp at scanned
  · rename_i high afterHigh highScan
    rw [scanUnit_append s t high afterHigh highScan]
    simp only
    split at scanned
    · rename_i isHigh
      rw [if_pos isHigh]
      split at scanned
      · rename_i afterMark
        simp only [List.cons_append]
        split at scanned
        · simp at scanned
        · rename_i low afterLow lowScan
          rw [scanUnit_append _ t low afterLow lowScan]
          simp only
          split at scanned
          · rename_i isLow
            simp only [Option.some.injEq, Prod.mk.injEq] at scanned
            obtain ⟨rfl, rfl⟩ := scanned
            rw [if_pos isLow]
          · simp at scanned
      · simp at scanned
    · rename_i notHigh
      rw [if_neg notHigh]
      split at scanned
      · simp at scanned
      · rename_i notLow
        simp only [Option.some.injEq, Prod.mk.injEq] at scanned
        obtain ⟨rfl, rfl⟩ := scanned
        rw [if_neg notLow]

theorem scanChar_append (s t : Str) (c : Option Char) (rest : Str)
    (scanned : scanChar s = some (c, rest)) : scanChar (s ++ t) = some (c, rest ++ t) := by
  unfold scanChar at scanned
  split at scanned
  · simp at scanned
  · simp only [Option.some.injEq, Prod.mk.injEq] at scanned
    obtain ⟨rfl, rfl⟩ := scanned
    rfl
  · simp only [Option.map_eq_some_iff, Prod.mk.injEq, Prod.exists] at scanned
    obtain ⟨read, afterRead, unicode, rfl, rfl⟩ := scanned
    simp [scanChar, scanUnicode_append _ t read afterRead unicode]
  · rename_i escape rest' notUnicode
    simp only [Option.map_eq_some_iff, Prod.mk.injEq] at scanned
    obtain ⟨read, simple, rfl, rfl⟩ := scanned
    have plain : escape ≠ 'u' := fun same => notUnicode (by rw [same])
    simp [scanChar, simple]
  · simp at scanned
  · rename_i d rest' notQuote notUnicode notEscape notEnd
    split at scanned
    · simp at scanned
    · rename_i printable
      simp only [Option.some.injEq, Prod.mk.injEq] at scanned
      obtain ⟨rfl, rfl⟩ := scanned
      have notBackslash : d ≠ '\\' := by
        rintro rfl
        cases rest' with
        | nil => exact notEnd rfl rfl
        | cons e rest' => exact notEscape e rest' rfl rfl
      simp [scanChar, notBackslash, printable]

theorem parseString_append (fuel : Nat) (s t read rest : Str)
    (parsed : parseString fuel s = some (read, rest)) :
    parseString fuel (s ++ t) = some (read, rest ++ t) := by
  induction fuel generalizing s read rest with
  | zero => simp [parseString] at parsed
  | succ fuel ih =>
      rw [parseString] at parsed ⊢
      split at parsed
      · simp at parsed
      · rename_i after scanned
        simp only [Option.some.injEq, Prod.mk.injEq] at parsed
        obtain ⟨rfl, rfl⟩ := parsed
        rw [scanChar_append s t none after scanned]
      · rename_i c after scanned
        simp only [Option.map_eq_some_iff, Prod.mk.injEq, Prod.exists] at parsed
        obtain ⟨tail, rest', tailParsed, rfl, rfl⟩ := parsed
        rw [scanChar_append s t (some c) after scanned]
        simp [ih after tail rest' tailParsed]

/-- A text that continues with a delimiter after whitespace ends every number. -/
theorem stops_of_skipWhitespace (s t : Str) (c : Char) (rest : Str)
    (skipped : skipWhitespace s = c :: rest) (delimiter : stops (c :: rest) = true) :
    stops (s ++ t) = true := by
  cases s with
  | nil => simp [skipWhitespace] at skipped
  | cons d s =>
      by_cases space : isWhitespace d = true
      · simp only [isWhitespace, Bool.or_eq_true, beq_iff_eq, or_assoc] at space
        rcases space with rfl | rfl | rfl | rfl <;> rfl
      · simp only [skipWhitespace, List.dropWhile_cons, space] at skipped
        simp only [Bool.false_eq_true, if_false, List.cons.injEq] at skipped
        obtain ⟨rfl, rfl⟩ := skipped
        exact delimiter

variable {round : FloatText → PyFloat}

theorem parseNumber_append (s t : Str) (value : Json) (rest : Str)
    (parsed : parseNumber round s = some (value, rest)) (stop : stops (rest ++ t) = true) :
    parseNumber round (s ++ t) = some (value, rest ++ t) := by
  unfold parseNumber at parsed
  split at parsed
  · rename_i integer tail after scanned
    simp only [Option.map_eq_some_iff, Prod.mk.injEq] at parsed
    obtain ⟨read, isNumber, rfl, rfl⟩ := parsed
    simp [parseNumber, scanNumber_append s t integer tail after scanned stop, isNumber]
  · split at parsed
    · rename_i constant
      obtain ⟨after, rfl⟩ := List.isPrefixOf_iff_prefix.mp constant
      simp only [Option.some.injEq, Prod.mk.injEq] at parsed
      obtain ⟨rfl, rfl⟩ := parsed
      rfl
    split at parsed
    · rename_i constant
      obtain ⟨after, rfl⟩ := List.isPrefixOf_iff_prefix.mp constant
      simp only [Option.some.injEq, Prod.mk.injEq] at parsed
      obtain ⟨rfl, rfl⟩ := parsed
      rfl
    split at parsed
    · rename_i constant
      obtain ⟨after, rfl⟩ := List.isPrefixOf_iff_prefix.mp constant
      simp only [Option.some.injEq, Prod.mk.injEq] at parsed
      obtain ⟨rfl, rfl⟩ := parsed
      rfl
    · simp at parsed

/-- These characters start the values that are not numbers. -/
def startsOther (c : Char) : Bool :=
  c == '"' || c == '{' || c == '[' || c == 'n' || c == 't' || c == 'f'

theorem parseNumber_head (s : Str) (value : Json) (rest : Str)
    (parsed : parseNumber round s = some (value, rest)) :
    ∃ c tail, s = c :: tail ∧ startsOther c = false := by
  cases s with
  | nil => simp [parseNumber, scanNumber, scanInteger, scanUnsigned] at parsed
  | cons c s =>
      refine ⟨c, s, rfl, ?_⟩
      by_contra other
      simp only [startsOther, Bool.or_eq_false_iff, beq_eq_false_iff_ne, ne_eq, not_and,
        Decidable.not_not, and_assoc] at other
      have cases : c = '"' ∨ c = '{' ∨ c = '[' ∨ c = 'n' ∨ c = 't' ∨ c = 'f' := by tauto
      rcases cases with rfl | rfl | rfl | rfl | rfl | rfl <;>
        simp [parseNumber, scanNumber, scanInteger, scanUnsigned] at parsed

theorem parseValue_number (fuel : Nat) (c : Char) (s : Str) (number : startsOther c = false) :
    parseValue round (fuel + 1) (c :: s) = parseNumber round (c :: s) := by
  simp only [startsOther, Bool.or_eq_false_iff, beq_eq_false_iff_ne, ne_eq, and_assoc] at number
  unfold parseValue
  split <;> simp_all

theorem parse_nil (fuel : Nat) : parseValue round fuel [] = none ∧
    parseItems round fuel [] = none ∧ parseMembers round fuel [] = none := by
  have value : ∀ fuel, parseValue round fuel [] = none := by
    intro fuel
    cases fuel with
    | zero => rfl
    | succ fuel => rfl
  cases fuel with
  | zero => exact ⟨rfl, rfl, rfl⟩
  | succ fuel => exact ⟨value _, by simp [parseItems, value fuel], rfl⟩

theorem skipWhitespace_append_of_ne (s t : Str) (nonempty : skipWhitespace s ≠ []) :
    skipWhitespace (s ++ t) = skipWhitespace s ++ t := by
  obtain ⟨c, rest, skipped⟩ := List.exists_cons_of_ne_nil nonempty
  rw [skipWhitespace_append s t c rest skipped, skipped, List.cons_append]

/-! What one step of each loop reads. -/

section Reads

variable (round) (fuel : Nat)

/-- One step of `scan_once` reads the value and leaves the rest. -/
inductive ReadsValue : Str → Json → Str → Prop where
  | string {body text r : Str} (read : parseString fuel body = some (text, r)) :
      ReadsValue ('"' :: body) (.str text) r
  | noMembers {body r : Str} (closed : skipWhitespace body = '}' :: r) : ReadsValue ('{' :: body) (.obj []) r
  | members {body r : Str} {members : List (Str × Json)}
      (read : parseMembers round fuel (skipWhitespace body) = some (members, r)) :
      ReadsValue ('{' :: body) (.obj (Dict.ofPairs members)) r
  | noItems {body r : Str} (closed : skipWhitespace body = ']' :: r) : ReadsValue ('[' :: body) (.arr []) r
  | items {body r : Str} {items : List Json}
      (read : parseItems round fuel (skipWhitespace body) = some (items, r)) :
      ReadsValue ('[' :: body) (.arr items) r
  | null {r : Str} : ReadsValue ('n' :: 'u' :: 'l' :: 'l' :: r) .null r
  | true {r : Str} : ReadsValue ('t' :: 'r' :: 'u' :: 'e' :: r) (.bool true) r
  | false {r : Str} : ReadsValue ('f' :: 'a' :: 'l' :: 's' :: 'e' :: r) (.bool false) r
  | number {s r : Str} {value : Json} (read : parseNumber round s = some (value, r)) : ReadsValue s value r

/-- One step of the loop of an array reads the items and leaves the rest. -/
inductive ReadsItems : Str → List Json → Str → Prop where
  | last {s rest r : Str} {item : Json} (read : parseValue round fuel s = some (item, rest))
      (closed : skipWhitespace rest = ']' :: r) : ReadsItems s [item] r
  | more {s rest next r : Str} {item : Json} {items : List Json}
      (read : parseValue round fuel s = some (item, rest)) (comma : skipWhitespace rest = ',' :: next)
      (others : parseItems round fuel (skipWhitespace next) = some (items, r)) :
      ReadsItems s (item :: items) r

/-- One step of the loop of an object reads the members and leaves the rest. -/
inductive ReadsMembers : Str → List (Str × Json) → Str → Prop where
  | last {body afterKey afterColon rest r key : Str} {value : Json}
      (name : parseString fuel body = some (key, afterKey))
      (colon : skipWhitespace afterKey = ':' :: afterColon)
      (read : parseValue round fuel (skipWhitespace afterColon) = some (value, rest))
      (closed : skipWhitespace rest = '}' :: r) : ReadsMembers ('"' :: body) [(key, value)] r
  | more {body afterKey afterColon rest next r key : Str} {value : Json} {members : List (Str × Json)}
      (name : parseString fuel body = some (key, afterKey))
      (colon : skipWhitespace afterKey = ':' :: afterColon)
      (read : parseValue round fuel (skipWhitespace afterColon) = some (value, rest))
      (comma : skipWhitespace rest = ',' :: next)
      (others : parseMembers round fuel (skipWhitespace next) = some (members, r)) :
      ReadsMembers ('"' :: body) ((key, value) :: members) r

end Reads

theorem parseValue_bracket (fuel : Nat) (s : Str) : parseValue round fuel (']' :: s) = none := by
  cases fuel with
  | zero => rfl
  | succ fuel =>
      rw [parseValue_number fuel ']' s rfl]
      simp [parseNumber, scanNumber, scanInteger, scanUnsigned]

theorem parseItems_bracket (fuel : Nat) (s : Str) : parseItems round fuel (']' :: s) = none := by
  cases fuel with
  | zero => rfl
  | succ fuel => rw [parseItems, parseValue_bracket]

theorem parseMembers_brace (fuel : Nat) (s : Str) : parseMembers round fuel ('}' :: s) = none := by
  cases fuel with
  | zero => rfl
  | succ fuel => rfl

theorem parseValue_iff (fuel : Nat) (s : Str) (value : Json) (r : Str) :
    parseValue round (fuel + 1) s = some (value, r) ↔ ReadsValue round fuel s value r := by
  constructor
  · intro parsed
    unfold parseValue at parsed
    split at parsed
    · simp only [Option.map_eq_some_iff, Prod.mk.injEq, Prod.exists] at parsed
      obtain ⟨text, after, read, rfl, rfl⟩ := parsed
      exact .string read
    · split at parsed
      · rename_i closed
        simp only [Option.some.injEq, Prod.mk.injEq] at parsed
        obtain ⟨rfl, rfl⟩ := parsed
        exact .noMembers closed
      · simp only [Option.map_eq_some_iff, Prod.mk.injEq, Prod.exists] at parsed
        obtain ⟨members, after, read, rfl, rfl⟩ := parsed
        exact .members read
    · split at parsed
      · rename_i closed
        simp only [Option.some.injEq, Prod.mk.injEq] at parsed
        obtain ⟨rfl, rfl⟩ := parsed
        exact .noItems closed
      · simp only [Option.map_eq_some_iff, Prod.mk.injEq, Prod.exists] at parsed
        obtain ⟨items, after, read, rfl, rfl⟩ := parsed
        exact .items read
    · simp only [Option.some.injEq, Prod.mk.injEq] at parsed
      obtain ⟨rfl, rfl⟩ := parsed
      exact .null
    · simp only [Option.some.injEq, Prod.mk.injEq] at parsed
      obtain ⟨rfl, rfl⟩ := parsed
      exact .true
    · simp only [Option.some.injEq, Prod.mk.injEq] at parsed
      obtain ⟨rfl, rfl⟩ := parsed
      exact .false
    · exact .number parsed
  · intro reads
    cases reads with
    | string read => simp [parseValue, read]
    | noMembers closed => simp [parseValue, closed]
    | @members body r members read =>
        rw [parseValue]
        split
        · rename_i closed
          rw [closed, parseMembers_brace] at read
          cases read
        · rw [read]
          rfl
    | noItems closed => simp [parseValue, closed]
    | @items body r items read =>
        rw [parseValue]
        split
        · rename_i closed
          rw [closed, parseItems_bracket] at read
          cases read
        · rw [read]
          rfl
    | null => rfl
    | true => rfl
    | false => rfl
    | number read =>
        obtain ⟨c, tail, rfl, number⟩ := parseNumber_head s value r read
        rw [parseValue_number fuel c tail number, read]

theorem parseItems_iff (fuel : Nat) (s : Str) (items : List Json) (r : Str) :
    parseItems round (fuel + 1) s = some (items, r) ↔ ReadsItems round fuel s items r := by
  constructor
  · intro parsed
    rw [parseItems] at parsed
    split at parsed
    · cases parsed
    · rename_i item rest read
      split at parsed
      · rename_i closed
        simp only [Option.some.injEq, Prod.mk.injEq] at parsed
        obtain ⟨rfl, rfl⟩ := parsed
        exact .last read closed
      · rename_i next comma
        simp only [Option.map_eq_some_iff, Prod.mk.injEq, Prod.exists] at parsed
        obtain ⟨others, after, more, rfl, rfl⟩ := parsed
        exact .more read comma more
      · cases parsed
  · intro reads
    cases reads with
    | last read closed => simp [parseItems, read, closed]
    | more read comma others => simp [parseItems, read, comma, others]

theorem parseMembers_iff (fuel : Nat) (s : Str) (members : List (Str × Json)) (r : Str) :
    parseMembers round (fuel + 1) s = some (members, r) ↔ ReadsMembers round fuel s members r := by
  constructor
  · intro parsed
    unfold parseMembers at parsed
    split at parsed
    · split at parsed
      · cases parsed
      · rename_i key afterKey name
        split at parsed
        · rename_i afterColon colon
          split at parsed
          · cases parsed
          · rename_i value rest read
            split at parsed
            · rename_i closed
              simp only [Option.some.injEq, Prod.mk.injEq] at parsed
              obtain ⟨rfl, rfl⟩ := parsed
              exact .last name colon read closed
            · rename_i next comma
              simp only [Option.map_eq_some_iff, Prod.mk.injEq, Prod.exists] at parsed
              obtain ⟨others, after, more, rfl, rfl⟩ := parsed
              exact .more name colon read comma more
            · cases parsed
        · cases parsed
    · cases parsed
  · intro reads
    cases reads with
    | last name colon read closed => simp [parseMembers, name, colon, read, closed]
    | more name colon read comma others => simp [parseMembers, name, colon, read, comma, others]

/-- A loop that reads something does not start at the end of the text. -/
theorem skipWhitespace_ne_nil (fuel : Nat) (s : Str)
    (read : (parseValue round fuel (skipWhitespace s)).isSome = true ∨
      (parseItems round fuel (skipWhitespace s)).isSome = true ∨
      (parseMembers round fuel (skipWhitespace s)).isSome = true) : skipWhitespace s ≠ [] := by
  intro empty
  obtain ⟨value, items, members⟩ := @parse_nil round fuel
  rw [empty, value, items, members] at read
  simp at read

/-- The three loops of the decoder read the same from a longer text. -/
theorem parse_append (fuel : Nat) :
    (∀ s t value rest, parseValue round fuel s = some (value, rest) → stops (rest ++ t) = true →
      parseValue round fuel (s ++ t) = some (value, rest ++ t)) ∧
    (∀ s t items rest, parseItems round fuel s = some (items, rest) →
      parseItems round fuel (s ++ t) = some (items, rest ++ t)) ∧
    (∀ s t members rest, parseMembers round fuel s = some (members, rest) →
      parseMembers round fuel (s ++ t) = some (members, rest ++ t)) := by
  induction fuel with
  | zero => simp [parseValue, parseItems, parseMembers]
  | succ fuel ih =>
      obtain ⟨valueStep, itemsStep, membersStep⟩ := ih
      refine ⟨?_, ?_, ?_⟩
      · intro s t value rest parsed stop
        rw [parseValue_iff] at parsed ⊢
        cases parsed with
        | string read => exact .string (parseString_append fuel _ t _ _ read)
        | noMembers closed => exact .noMembers (skipWhitespace_append _ t _ _ closed)
        | members read =>
            have filled := skipWhitespace_ne_nil fuel _ (Or.inr (Or.inr (by rw [read]; rfl)))
            have continued := membersStep _ t _ _ read
            rw [← skipWhitespace_append_of_ne _ t filled] at continued
            exact .members continued
        | noItems closed => exact .noItems (skipWhitespace_append _ t _ _ closed)
        | items read =>
            have filled := skipWhitespace_ne_nil fuel _ (Or.inr (Or.inl (by rw [read]; rfl)))
            have continued := itemsStep _ t _ _ read
            rw [← skipWhitespace_append_of_ne _ t filled] at continued
            exact .items continued
        | null => exact .null
        | true => exact .true
        | false => exact .false
        | number read => exact .number (parseNumber_append s t value rest read stop)
      · intro s t items rest parsed
        rw [parseItems_iff] at parsed ⊢
        cases parsed with
        | last read closed =>
            have continued := valueStep s t _ _ read (stops_of_skipWhitespace _ t _ _ closed rfl)
            exact .last continued (skipWhitespace_append _ t _ _ closed)
        | more read comma others =>
            have continued := valueStep s t _ _ read (stops_of_skipWhitespace _ t _ _ comma rfl)
            have filled := skipWhitespace_ne_nil fuel _ (Or.inr (Or.inl (by rw [others]; rfl)))
            have more := itemsStep _ t _ _ others
            rw [← skipWhitespace_append_of_ne _ t filled] at more
            exact .more continued (skipWhitespace_append _ t _ _ comma) more
      · intro s t members rest parsed
        rw [parseMembers_iff] at parsed ⊢
        cases parsed with
        | last name colon read closed =>
            have filled := skipWhitespace_ne_nil fuel _ (Or.inl (by rw [read]; rfl))
            have continued := valueStep _ t _ _ read (stops_of_skipWhitespace _ t _ _ closed rfl)
            rw [← skipWhitespace_append_of_ne _ t filled] at continued
            exact .last (parseString_append fuel _ t _ _ name) (skipWhitespace_append _ t _ _ colon)
              continued (skipWhitespace_append _ t _ _ closed)
        | more name colon read comma others =>
            have filled := skipWhitespace_ne_nil fuel _ (Or.inl (by rw [read]; rfl))
            have continued := valueStep _ t _ _ read (stops_of_skipWhitespace _ t _ _ comma rfl)
            rw [← skipWhitespace_append_of_ne _ t filled] at continued
            have later := skipWhitespace_ne_nil fuel _ (Or.inr (Or.inr (by rw [others]; rfl)))
            have more := membersStep _ t _ _ others
            rw [← skipWhitespace_append_of_ne _ t later] at more
            exact .more (parseString_append fuel _ t _ _ name) (skipWhitespace_append _ t _ _ colon)
              continued (skipWhitespace_append _ t _ _ comma) more

end Kortex.Json
