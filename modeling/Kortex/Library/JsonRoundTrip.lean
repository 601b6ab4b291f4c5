import Kortex.Library.JsonFrame
import Kortex.Library.JsonLayout

/-
This file proves that the decoder inverts the encoder.
-/

namespace Kortex.Json

variable {round : FloatText → PyFloat}

theorem parseString_mono (fuel more : Nat) (enough : fuel ≤ more) (s read rest : Str)
    (parsed : parseString fuel s = some (read, rest)) :
    parseString more s = some (read, rest) := by
  induction fuel generalizing more s read rest with
  | zero => simp [parseString] at parsed
  | succ fuel ih =>
      obtain ⟨more, rfl⟩ : ∃ m, more = m + 1 := ⟨more - 1, by omega⟩
      rw [parseString] at parsed ⊢
      split at parsed
      · simp at parsed
      · exact parsed
      · rename_i c after scanned
        simp only [Option.map_eq_some_iff, Prod.mk.injEq, Prod.exists] at parsed
        obtain ⟨tail, rest', tailParsed, rfl, rfl⟩ := parsed
        simp [ih more (by omega) after tail rest' tailParsed]

/-- More fuel does not change what the decoder reads. -/
theorem parse_mono (fuel : Nat) : ∀ more, fuel ≤ more →
    (∀ s value rest, parseValue round fuel s = some (value, rest) →
      parseValue round more s = some (value, rest)) ∧
    (∀ s items rest, parseItems round fuel s = some (items, rest) →
      parseItems round more s = some (items, rest)) ∧
    (∀ s members rest, parseMembers round fuel s = some (members, rest) →
      parseMembers round more s = some (members, rest)) := by
  induction fuel with
  | zero => simp [parseValue, parseItems, parseMembers]
  | succ fuel ih =>
      intro more enough
      obtain ⟨more, rfl⟩ : ∃ m, more = m + 1 := ⟨more - 1, by omega⟩
      obtain ⟨valueStep, itemsStep, membersStep⟩ := ih more (by omega)
      have stringStep := parseString_mono fuel more (by omega)
      refine ⟨?_, ?_, ?_⟩
      · intro s value rest parsed
        rw [parseValue_iff] at parsed ⊢
        cases parsed with
        | string read => exact .string (stringStep _ _ _ read)
        | noMembers closed => exact .noMembers closed
        | members read => exact .members (membersStep _ _ _ read)
        | noItems closed => exact .noItems closed
        | items read => exact .items (itemsStep _ _ _ read)
        | null => exact .null
        | true => exact .true
        | false => exact .false
        | number read => exact .number read
      · intro s items rest parsed
        rw [parseItems_iff] at parsed ⊢
        cases parsed with
        | last read closed => exact .last (valueStep _ _ _ read) closed
        | more read comma others => exact .more (valueStep _ _ _ read) comma (itemsStep _ _ _ others)
      · intro s members rest parsed
        rw [parseMembers_iff] at parsed ⊢
        cases parsed with
        | last name colon read closed =>
            exact .last (stringStep _ _ _ name) colon (valueStep _ _ _ read) closed
        | more name colon read comma others =>
            exact .more (stringStep _ _ _ name) colon (valueStep _ _ _ read) comma (membersStep _ _ _ others)

theorem hexValue_hexDigit (n : Nat) : hexValue (hexDigit n) = some (n % 16) := by
  have all : ∀ d, d < 16 → hexValue (Nat.digitChar d) = some d := by decide
  exact all (n % 16) (Nat.mod_lt _ (by omega))

/-- Four hexadecimal digits hold every UTF-16 unit. -/
theorem scanUnit_unitEscape (n : Nat) (small : n < 0x10000) (rest : Str) :
    ∃ digits, unitEscape n = '\\' :: 'u' :: digits ∧ scanUnit (digits ++ rest) = some (n, rest) := by
  refine ⟨[hexDigit (n / 4096), hexDigit (n / 256), hexDigit (n / 16), hexDigit n], rfl, ?_⟩
  simp only [List.cons_append, List.nil_append, scanUnit, hexValue_hexDigit]
  have whole : n / 4096 % 16 * 4096 + n / 256 % 16 * 256 + n / 16 % 16 * 16 + n % 16 = n := by omega
  simp [whole]

theorem char_range (c : Char) : c.toNat < 0xd800 ∨ 0xdfff < c.toNat ∧ c.toNat < 0x110000 := c.valid

/-- The decoder reads an escaped character back. -/
theorem scanChar_unicodeEscape (c : Char) (rest : Str) :
    scanChar (unicodeEscape c.toNat ++ rest) = some (some c, rest) := by
  have range := char_range c
  unfold unicodeEscape
  split
  · rename_i basic
    obtain ⟨digits, escape, scanned⟩ := scanUnit_unitEscape c.toNat basic rest
    have notHigh : ¬(0xd800 ≤ c.toNat ∧ c.toNat ≤ 0xdbff) := by omega
    have notLow : ¬(0xdc00 ≤ c.toNat ∧ c.toNat ≤ 0xdfff) := by omega
    simp [escape, scanChar, scanUnicode, scanned, notHigh, notLow, Char.ofNat_toNat]
  · rename_i pair
    set high := 0xd800 + (c.toNat - 0x10000) / 1024 with highEq
    set low := 0xdc00 + (c.toNat - 0x10000) % 1024 with lowEq
    obtain ⟨lowDigits, lowEscape, lowScan⟩ := scanUnit_unitEscape low (by omega) rest
    obtain ⟨highDigits, highEscape, highScan⟩ :=
      scanUnit_unitEscape high (by omega) ('\\' :: 'u' :: (lowDigits ++ rest))
    have isHigh : 0xd800 ≤ high ∧ high ≤ 0xdbff := by omega
    have isLow : 0xdc00 ≤ low ∧ low ≤ 0xdfff := by omega
    have joined : 0x10000 + (high - 0xd800) * 1024 + (low - 0xdc00) = c.toNat := by omega
    rw [highEscape, lowEscape]
    simp only [List.cons_append, List.append_assoc, scanChar, scanUnicode, highScan, lowScan,
      if_pos isHigh, if_pos isLow, joined, Char.ofNat_toNat, Option.map_some]

theorem scanChar_escapeChar (ensureAscii : Bool) (c : Char) (rest : Str) :
    scanChar (escapeChar ensureAscii c ++ rest) = some (some c, rest) := by
  unfold escapeChar
  split
  · rename_i same; subst same; rfl
  rename_i notQuote
  split
  · rename_i same; subst same; rfl
  rename_i notBackslash
  split
  · rename_i same; subst same; rfl
  split
  · rename_i same; subst same; rfl
  split
  · rename_i same; subst same; rfl
  split
  · rename_i same
    have formFeed : c = Char.ofNat 0x0c := by rw [← same, Char.ofNat_toNat]
    subst formFeed; rfl
  split
  · rename_i same
    have backspace : c = Char.ofNat 0x08 := by rw [← same, Char.ofNat_toNat]
    subst backspace; rfl
  split
  · exact scanChar_unicodeEscape c rest
  split
  · exact scanChar_unicodeEscape c rest
  · rename_i printable _
    simp [scanChar, notBackslash, printable]

theorem parseString_quote (ensureAscii : Bool) (s rest : Str) (fuel : Nat)
    (enough : s.length < fuel) :
    parseString fuel (s.flatMap (escapeChar ensureAscii) ++ '"' :: rest) = some (s, rest) := by
  induction s generalizing fuel with
  | nil =>
      obtain ⟨fuel, rfl⟩ : ∃ f, fuel = f + 1 := ⟨fuel - 1, by simp at enough; omega⟩
      simp [parseString, scanChar]
  | cons c s ih =>
      obtain ⟨fuel, rfl⟩ : ∃ f, fuel = f + 1 := ⟨fuel - 1, by simp at enough; omega⟩
      rw [List.flatMap_cons, List.append_assoc, parseString, scanChar_escapeChar]
      simp [ih fuel (by simpa using enough)]

theorem quote_length (style : Style) (s : Str) : s.length + 2 ≤ (quote style s).length := by
  have escaped : s.length ≤ (s.flatMap (escapeChar style.ensureAscii)).length := by
    induction s with
    | nil => simp
    | cons c s ih =>
        have one : 1 ≤ (escapeChar style.ensureAscii c).length := by
          unfold escapeChar unicodeEscape
          repeat' split
          all_goals simp [unitEscape]
        simp only [List.flatMap_cons, List.length_append, List.length_cons]
        omega
  simp only [quote, List.length_append, List.length_cons, List.length_nil]
  omega

theorem parseString_after_quote (style : Style) (s rest : Str) (fuel : Nat)
    (enough : (quote style s).length ≤ fuel) :
    ∃ body, quote style s = '"' :: body ∧ parseString fuel (body ++ rest) = some (s, rest) := by
  refine ⟨s.flatMap (escapeChar style.ensureAscii) ++ ['"'], rfl, ?_⟩
  have long := quote_length style s
  simpa using parseString_quote style.ensureAscii s rest fuel (by omega)

theorem digitChar_isDigit (n : Nat) (small : n < 10) : (Nat.digitChar n).isDigit = true := by
  have all : ∀ d, d < 10 → (Nat.digitChar d).isDigit = true := by decide
  exact all n small

theorem digitChar_value (n : Nat) (small : n < 10) : (Nat.digitChar n).toNat - 48 = n := by
  have all : ∀ d, d < 10 → (Nat.digitChar d).toNat - 48 = d := by decide
  exact all n small

theorem digitsValue_map (digits : List Nat) (small : ∀ d ∈ digits, d < 10) :
    digitsValue (digits.reverse.map Nat.digitChar) = Nat.ofDigits 10 digits := by
  induction digits with
  | nil => rfl
  | cons d digits ih =>
      have tail := ih (fun x present => small x (by simp [present]))
      have head := digitChar_value d (small d (by simp))
      simp only [digitsValue, List.reverse_cons, List.map_append, List.map_cons, List.map_nil,
        List.foldl_append, List.foldl_cons, List.foldl_nil] at tail ⊢
      rw [tail, Nat.ofDigits_cons, head]
      omega

/-- The text of a positive number starts with a nonzero digit and has digits only. -/
theorem ofNat_digits (n : Nat) (positive : n ≠ 0) : ∃ c digits, Str.ofNat n = c :: digits ∧
    c ≠ '0' ∧ (∀ d ∈ c :: digits, d.isDigit = true) ∧ digitsValue (c :: digits) = n := by
  have small : ∀ d ∈ Nat.digits 10 n, d < 10 := fun d => Nat.digits_lt_base (by omega)
  have text : Str.ofNat n = (Nat.digits 10 n).reverse.map Nat.digitChar := if_neg positive
  have nonempty : Nat.digits 10 n ≠ [] := Nat.digits_ne_nil_iff_ne_zero.mpr positive
  have leading := Nat.getLast_digit_ne_zero 10 positive
  obtain ⟨front, last, split⟩ := (List.eq_nil_or_concat (Nat.digits 10 n)).resolve_left nonempty
  have lastSmall : last < 10 := small last (by simp [split])
  have lastNonzero : last ≠ 0 := by simpa [split] using leading
  have notZero : ∀ d, d < 10 → d ≠ 0 → Nat.digitChar d ≠ '0' := by decide
  refine ⟨Nat.digitChar last, front.reverse.map Nat.digitChar, ?_, notZero last lastSmall lastNonzero,
    ?_, ?_⟩
  · rw [text, split]
    simp
  · intro d present
    have present' : d ∈ (Nat.digits 10 n).reverse.map Nat.digitChar := by
      rw [split]
      simpa using present
    obtain ⟨digit, member, rfl⟩ := List.mem_map.mp present'
    exact digitChar_isDigit digit (small digit (List.mem_reverse.mp member))
  · have value := digitsValue_map (Nat.digits 10 n) small
    rw [Nat.ofDigits_digits, split] at value
    simpa using value

theorem isDigit_of_mem_ofNat (n : Nat) : ∀ c ∈ Str.ofNat n, c.isDigit = true := by
  by_cases zero : n = 0
  · subst zero
    simp [Str.ofNat]
  · obtain ⟨c, digits, text, _, all, _⟩ := ofNat_digits n zero
    rw [text]
    exact all

theorem digitsValue_ofNat (n : Nat) : digitsValue (Str.ofNat n) = n := by
  by_cases zero : n = 0
  · subst zero
    rfl
  · obtain ⟨c, digits, text, _, _, value⟩ := ofNat_digits n zero
    rw [text]
    exact value

theorem ofNat_injective : Function.Injective Str.ofNat := by
  intro n n' same
  rw [← digitsValue_ofNat n, same, digitsValue_ofNat]

theorem scanFraction_stops (s : Str) (stop : stops s = true) : scanFraction s = ([], s) := by
  cases s with
  | nil => rfl
  | cons c s => simp [scanFraction, (stops_head _ stop c rfl).2.1]

theorem scanExponent_stops (s : Str) (stop : stops s = true) : scanExponent s = ([], s) := by
  cases s with
  | nil => rfl
  | cons c s =>
      have head := stops_head _ stop c rfl
      simp [scanExponent, head]

theorem scanUnsigned_ofNat (n : Nat) (rest : Str) (stop : stops rest = true) :
    scanUnsigned (Str.ofNat n ++ rest) = some (Str.ofNat n, rest) := by
  by_cases zero : n = 0
  · subst zero; rfl
  · obtain ⟨c, digits, text, notZero, allDigits, _⟩ := ofNat_digits n zero
    have whole : scanDigits (c :: digits) = (c :: digits, []) := by
      simp [scanDigits, List.takeWhile_eq_self_iff.mpr allDigits,
        List.dropWhile_eq_nil_iff.mpr allDigits]
    have continued := scanDigits_append _ rest _ _ whole
      (fun c head => (stops_head rest stop c head).1)
    rw [text, List.cons_append] at *
    simp [scanUnsigned, allDigits c (by simp), continued]

theorem scanInteger_ofInt (i : Int) (rest : Str) (stop : stops rest = true) :
    scanInteger (Str.ofInt i ++ rest) = some (Str.ofInt i, rest) := by
  cases i with
  | ofNat n =>
      have unsigned := scanUnsigned_ofNat n rest stop
      simp only [Str.ofInt]
      unfold scanInteger
      split
      · rename_i rest' same
        by_cases zero : n = 0
        · subst zero; simp [Str.ofNat] at same
        · obtain ⟨c, digits, text, _, allDigits, _⟩ := ofNat_digits n zero
          rw [text] at same
          simp only [List.cons_append, List.cons.injEq] at same
          have digit := allDigits c (by simp)
          rw [same.1] at digit
          simp at digit
      · exact unsigned
  | negSucc n =>
      simp [Str.ofInt, scanInteger, scanUnsigned_ofNat (n + 1) rest stop]

theorem integerValue_ofInt (i : Int) : integerValue (Str.ofInt i) = i := by
  have natural : ∀ n, digitsValue (Str.ofNat n) = n := by
    intro n
    by_cases zero : n = 0
    · subst zero; rfl
    · obtain ⟨c, digits, text, _, _, value⟩ := ofNat_digits n zero
      rw [text, value]
  cases i with
  | ofNat n =>
      simp only [Str.ofInt]
      by_cases zero : n = 0
      · subst zero; rfl
      · obtain ⟨c, digits, text, _, allDigits, value⟩ := ofNat_digits n zero
        unfold integerValue
        split
        · rename_i same
          rw [text, List.cons.injEq] at same
          have digit := allDigits c (by simp)
          rw [same.1] at digit
          simp at digit
        · rw [natural]; rfl
  | negSucc n =>
      simp only [Str.ofInt, integerValue, natural]
      rfl

theorem scanNumber_ofInt (i : Int) (rest : Str) (stop : stops rest = true) :
    scanNumber (Str.ofInt i ++ rest) = some (Str.ofInt i, [], rest) := by
  simp [scanNumber, scanInteger_ofInt i rest stop, scanFraction_stops rest stop,
    scanExponent_stops rest stop]

theorem parseNumber_int (i : Int) (rest : Str) (stop : stops rest = true) :
    parseNumber round (Str.ofInt i ++ rest) = some (.int i, rest) := by
  simp [parseNumber, scanNumber_ofInt i rest stop, number, integerValue_ofInt]

theorem parseNumber_constant (head : Char) (tail rest : Str) (letter : head = 'N' ∨ head = 'I') :
    scanNumber (head :: tail ++ rest) = none ∧ scanNumber ('-' :: head :: tail ++ rest) = none := by
  rcases letter with rfl | rfl <;> simp [scanNumber, scanInteger, scanUnsigned]

theorem parseNumber_finite (repr : FloatText) (rest : Str) (stop : stops rest = true)
    (exactly : round repr = .finite repr) :
    parseNumber round (repr.text ++ rest) = some (.float (.finite repr), rest) := by
  obtain ⟨integer, tail, scanned, whole, nonempty⟩ := repr.scanned
  have continued : scanNumber (repr.text ++ rest) = some (integer, tail, rest) :=
    scanNumber_append _ rest integer tail [] scanned (by simpa using stop)
  have converted : number round integer tail = some (.float (.finite repr)) := by
    obtain ⟨text, proof⟩ := repr
    simp only at whole scanned
    subst whole
    rw [number, if_neg nonempty, dif_pos ⟨scanned, nonempty⟩, exactly]
  rw [parseNumber, continued]
  simp only [converted, Option.map_some]

theorem parseNumber_float (x : PyFloat) (rest : Str) (stop : stops rest = true)
    (exactly : ∀ repr, x = .finite repr → round repr = .finite repr) :
    parseNumber round (x.text ++ rest) = some (.float x, rest) := by
  cases x with
  | nan =>
      have scanned := (parseNumber_constant 'N' ['a', 'N'] rest (Or.inl rfl)).1
      change parseNumber round ('N' :: ['a', 'N'] ++ rest) = _
      rw [parseNumber, scanned]
      rfl
  | inf negative =>
      have scanned := parseNumber_constant 'I' "nfinity".toList rest (Or.inr rfl)
      cases negative with
      | false =>
          change parseNumber round ('I' :: "nfinity".toList ++ rest) = _
          rw [parseNumber, scanned.1]
          rfl
      | true =>
          change parseNumber round ('-' :: 'I' :: "nfinity".toList ++ rest) = _
          rw [parseNumber, scanned.2]
          rfl
  | finite repr => exact parseNumber_finite repr rest stop (exactly repr rfl)

mutual
/-- A JSON value is proper when its floats are texts that `repr` gives and the keys of each
object are distinct, as they are in a Python dictionary. -/
def Proper (round : FloatText → PyFloat) : Json → Prop
  | .float (.finite repr) => round repr = .finite repr
  | .arr items => ProperItems round items
  | .obj members => (members.map Prod.fst).Nodup ∧ ProperMembers round members
  | _ => True

def ProperItems (round : FloatText → PyFloat) : List Json → Prop
  | [] => True
  | item :: rest => Proper round item ∧ ProperItems round rest

def ProperMembers (round : FloatText → PyFloat) : List (Str × Json) → Prop
  | [] => True
  | (_, value) :: rest => Proper round value ∧ ProperMembers round rest
end

theorem properItems_iff (items : List Json) :
    ProperItems round items ↔ ∀ item ∈ items, Proper round item := by
  induction items with
  | nil => simp [ProperItems]
  | cons item rest ih => simp [ProperItems, ih]

theorem properMembers_iff (members : List (Str × Json)) :
    ProperMembers round members ↔ ∀ m ∈ members, Proper round m.2 := by
  induction members with
  | nil => simp [ProperMembers]
  | cons member rest ih =>
      obtain ⟨key, value⟩ := member
      simp [ProperMembers, ih]

theorem ofInt_head (i : Int) : ∃ c rest, Str.ofInt i = c :: rest ∧ (c = '-' ∨ c.isDigit = true) := by
  cases i with
  | negSucc n => exact ⟨'-', _, rfl, Or.inl rfl⟩
  | ofNat n =>
      by_cases zero : n = 0
      · subst zero; exact ⟨'0', [], rfl, Or.inr rfl⟩
      · obtain ⟨c, digits, text, _, allDigits, _⟩ := ofNat_digits n zero
        exact ⟨c, digits, text, Or.inr (allDigits c (by simp))⟩

theorem scanNumber_head (s : Str) (scanned : (scanNumber s).isSome) :
    ∃ c rest, s = c :: rest ∧ (c = '-' ∨ c.isDigit = true) := by
  cases s with
  | nil => simp [scanNumber, scanInteger, scanUnsigned] at scanned
  | cons c rest =>
      refine ⟨c, rest, rfl, ?_⟩
      by_contra other
      push Not at other
      have notZero : c ≠ '0' := by rintro rfl; simp at other
      have unsigned : scanUnsigned (c :: rest) = none := by
        unfold scanUnsigned
        split <;> simp_all
      have integerScan : scanInteger (c :: rest) = none := by
        unfold scanInteger
        split <;> simp_all
      simp [scanNumber, integerScan] at scanned

theorem floatText_head (repr : FloatText) :
    ∃ c rest, repr.text = c :: rest ∧ (c = '-' ∨ c.isDigit = true) := by
  obtain ⟨integer, tail, scanned, _⟩ := repr.scanned
  exact scanNumber_head repr.text (by simp [scanned])

/-- The first character of a value is neither whitespace nor a closing bracket. -/
def starts (c : Char) : Bool := !isWhitespace c && c != ']' && c != '}'

theorem starts_of_number (c : Char) (head : c = '-' ∨ c.isDigit = true) :
    starts c = true ∧ startsOther c = false := by
  rcases head with rfl | digit
  · decide
  · have excluded : ∀ d : Char, d.isDigit = false → c ≠ d := by
      rintro d notDigit rfl
      rw [digit] at notDigit
      simp at notDigit
    simp [starts, startsOther, isWhitespace, excluded]

theorem encode_head (layout : Layout) (level : Nat) (value : Json) :
    ∃ c rest, encode layout level value = c :: rest ∧ starts c = true := by
  match value with
  | .null => exact ⟨'n', _, rfl, rfl⟩
  | .bool true => exact ⟨'t', _, rfl, rfl⟩
  | .bool false => exact ⟨'f', _, rfl, rfl⟩
  | .str s => exact ⟨'"', _, by rw [encode]; rfl, rfl⟩
  | .arr [] => exact ⟨'[', _, by rw [encode]; rfl, rfl⟩
  | .arr (_ :: _) => exact ⟨'[', _, by rw [encode], rfl⟩
  | .obj [] => exact ⟨'{', _, by rw [encode]; rfl, rfl⟩
  | .obj ((_, _) :: _) => exact ⟨'{', _, by rw [encode], rfl⟩
  | .int i =>
      obtain ⟨c, rest, text, head⟩ := ofInt_head i
      exact ⟨c, rest, by rw [encode, text], (starts_of_number c head).1⟩
  | .float .nan => exact ⟨'N', _, by rw [encode]; rfl, rfl⟩
  | .float (.inf false) => exact ⟨'I', _, by rw [encode]; rfl, rfl⟩
  | .float (.inf true) => exact ⟨'-', _, by rw [encode]; rfl, rfl⟩
  | .float (.finite repr) =>
      obtain ⟨c, rest, text, head⟩ := floatText_head repr
      exact ⟨c, rest, by rw [encode]; exact text, (starts_of_number c head).1⟩

theorem skipWhitespace_starts (c : Char) (rest : Str) (start : starts c = true) :
    skipWhitespace (c :: rest) = c :: rest := by
  simp only [starts, Bool.and_eq_true, Bool.not_eq_true'] at start
  simp [skipWhitespace, start]

theorem skipWhitespace_quote (style : Style) (key rest : Str) :
    skipWhitespace (quote style key ++ rest) = quote style key ++ rest := skipWhitespace_starts '"' _ rfl

/-- The whitespace of a layout is skipped before the next token. -/
theorem skipWhitespace_gap (gap s : Str) (spaces : ∀ c ∈ gap, isWhitespace c = true) :
    skipWhitespace (gap ++ s) = skipWhitespace s := List.dropWhile_append_of_pos spaces

theorem stops_gap (gap s : Str) (spaces : ∀ c ∈ gap, isWhitespace c = true) (stop : stops s = true) :
    stops (gap ++ s) = true := by
  cases gap with
  | nil => exact stop
  | cons c rest =>
      have space := spaces c List.mem_cons_self
      simp only [isWhitespace, Bool.or_eq_true, beq_iff_eq, or_assoc] at space
      rcases space with rfl | rfl | rfl | rfl <;> rfl

theorem stops_spaces (blank : Str) (spaces : ∀ c ∈ blank, isWhitespace c = true) : stops blank = true := by
  rw [← List.append_nil blank]
  exact stops_gap blank [] spaces rfl

section Layouts

variable (layout : Layout) (level : Nat)

theorem skipWhitespace_encode (value : Json) (rest : Str) :
    skipWhitespace (encode layout level value ++ rest) = encode layout level value ++ rest := by
  obtain ⟨c, tail, text, start⟩ := encode_head layout level value
  rw [text, List.cons_append]
  exact skipWhitespace_starts c (tail ++ rest) start

theorem skipWhitespace_opening (s : Str) : skipWhitespace (layout.opening level ++ s) = skipWhitespace s :=
  skipWhitespace_gap _ s fun c inside => layout.spaces level c (by simp [inside])

theorem skipWhitespace_afterComma (s : Str) :
    skipWhitespace (layout.afterComma level ++ s) = skipWhitespace s :=
  skipWhitespace_gap _ s fun c inside => layout.spaces level c (by simp [inside])

theorem skipWhitespace_afterColon (s : Str) : skipWhitespace (layout.afterColon ++ s) = skipWhitespace s :=
  skipWhitespace_gap _ s fun c inside => layout.spaces 0 c (by simp [inside])

theorem skipWhitespace_closing (s : Str) : skipWhitespace (layout.closing level ++ s) = skipWhitespace s :=
  skipWhitespace_gap _ s fun c inside => layout.spaces level c (by simp [inside])

/-- A number ends before the whitespace that closes a bracket. -/
theorem stops_closing (s : Str) (stop : stops s = true) : stops (layout.closing level ++ s) = true :=
  stops_gap _ s (fun c inside => layout.spaces level c (by simp [inside])) stop

theorem stops_encodeItems (items : List Json) (r : Str) :
    stops (encodeItems layout level items ++ r) = true := by
  cases items with
  | nil =>
      rw [encodeItems, List.append_assoc]
      exact stops_closing layout level _ rfl
  | cons item rest => rfl

theorem stops_encodeMembers (members : List (Str × Json)) (r : Str) :
    stops (encodeMembers layout level members ++ r) = true := by
  cases members with
  | nil =>
      rw [encodeMembers, List.append_assoc]
      exact stops_closing layout level _ rfl
  | cons member rest => rfl

theorem encodeItems_length (items : List Json) : 1 ≤ (encodeItems layout level items).length := by
  cases items <;> simp [encodeItems]

theorem encodeMembers_length (members : List (Str × Json)) :
    1 ≤ (encodeMembers layout level members).length := by
  cases members <;> simp [encodeMembers]

end Layouts

/-- The decoder reads back each value, item list and member list that the encoder wrote in a layout. -/
theorem parse_encode (layout : Layout) (fuel : Nat) :
    (∀ level value r, Proper round value → (encode layout level value).length < fuel → stops r = true →
      parseValue round fuel (encode layout level value ++ r) = some (value, r)) ∧
    (∀ level item rest r, Proper round item → ProperItems round rest →
      (encode layout (level + 1) item).length + (encodeItems layout level rest).length < fuel →
      parseItems round fuel (encode layout (level + 1) item ++ (encodeItems layout level rest ++ r)) =
        some (item :: rest, r)) ∧
    (∀ level key value rest r, Proper round value → ProperMembers round rest →
      (quote layout.style key).length + (encode layout (level + 1) value).length +
        (encodeMembers layout level rest).length < fuel →
      parseMembers round fuel (quote layout.style key ++ (':' :: (layout.afterColon ++
        (encode layout (level + 1) value ++ (encodeMembers layout level rest ++ r))))) =
        some ((key, value) :: rest, r)) := by
  induction fuel with
  | zero => simp
  | succ fuel ih =>
      obtain ⟨valueStep, itemsStep, membersStep⟩ := ih
      refine ⟨?_, ?_, ?_⟩
      · intro level value r proper enough stop
        rw [parseValue_iff]
        match value, proper, enough with
        | .null, _, _ => exact .null
        | .bool true, _, _ => exact .true
        | .bool false, _, _ => exact .false
        | .int i, _, _ => exact .number (parseNumber_int i r stop)
        | .float x, proper, _ =>
            have exactly : ∀ repr, x = .finite repr → round repr = .finite repr := by
              rintro repr rfl
              exact proper
            exact .number (parseNumber_float x r stop exactly)
        | .str s, _, enough =>
            rw [encode] at enough ⊢
            obtain ⟨body, text, read⟩ := parseString_after_quote layout.style s r fuel (by omega)
            rw [text]
            exact .string read
        | .arr [], _, _ => exact .noItems rfl
        | .arr (item :: rest), proper, enough =>
            simp only [Proper, ProperItems] at proper
            simp only [encode, List.length_cons, List.length_append] at enough
            have read := itemsStep level item rest r proper.1 proper.2 (by omega)
            simp only [encode, List.cons_append, List.append_assoc]
            apply ReadsValue.items
            rw [skipWhitespace_opening, skipWhitespace_encode, read]
        | .obj [], _, _ => exact .noMembers rfl
        | .obj ((key, value) :: rest), proper, enough =>
            simp only [Proper, ProperMembers] at proper
            simp only [encode, List.length_cons, List.length_append] at enough
            have read := membersStep level key value rest r proper.2.1 proper.2.2 (by omega)
            have distinct := Dict.ofPairs_of_nodup ((key, value) :: rest) proper.1
            simp only [encode, List.cons_append, List.append_assoc]
            rw [← skipWhitespace_quote layout.style key, ← skipWhitespace_opening layout (level + 1)] at read
            exact distinct ▸ ReadsValue.members read
      · intro level item rest r itemProper restProper enough
        have later := encodeItems_length layout level rest
        have read := valueStep (level + 1) item (encodeItems layout level rest ++ r) itemProper (by omega)
          (stops_encodeItems layout level rest r)
        rw [parseItems_iff]
        cases rest with
        | nil =>
            apply ReadsItems.last read
            rw [encodeItems, List.append_assoc, skipWhitespace_closing]
            rfl
        | cons next rest =>
            simp only [encodeItems, List.length_append, List.length_cons] at enough
            have more := itemsStep level next rest r restProper.1 restProper.2 (by omega)
            rw [← skipWhitespace_encode, ← skipWhitespace_afterComma layout (level + 1)] at more
            simp only [encodeItems, List.cons_append, List.append_assoc] at read ⊢
            exact .more read (skipWhitespace_starts ',' _ rfl) more
      · intro level key value rest r valueProper restProper enough
        have later := encodeMembers_length layout level rest
        have read := valueStep (level + 1) value (encodeMembers layout level rest ++ r) valueProper (by omega)
          (stops_encodeMembers layout level rest r)
        obtain ⟨body, text, name⟩ := parseString_after_quote layout.style key (':' :: (layout.afterColon ++
          (encode layout (level + 1) value ++ (encodeMembers layout level rest ++ r)))) fuel (by omega)
        rw [← skipWhitespace_encode, ← skipWhitespace_afterColon layout] at read
        rw [parseMembers_iff, text]
        cases rest with
        | nil =>
            apply ReadsMembers.last name (skipWhitespace_starts ':' _ rfl) read
            rw [encodeMembers, List.append_assoc, skipWhitespace_closing]
            rfl
        | cons next rest =>
            obtain ⟨nextKey, next⟩ := next
            simp only [encodeMembers, List.length_append, List.length_cons] at enough
            have more := membersStep level nextKey next rest r restProper.1 restProper.2 (by omega)
            rw [← skipWhitespace_quote layout.style nextKey,
              ← skipWhitespace_afterComma layout (level + 1)] at more
            simp only [encodeMembers, List.cons_append, List.append_assoc] at name read ⊢
            exact .more name (skipWhitespace_starts ':' _ rfl) read (skipWhitespace_starts ',' _ rfl) more

theorem dumps_head (style : Style) (value : Json) :
    ∃ c rest, dumps style value = c :: rest ∧ starts c = true := by
  rw [← encode_flat style 0]
  exact encode_head (flat style) 0 value

theorem skipWhitespace_dumps (style : Style) (value : Json) (rest : Str) :
    skipWhitespace (dumps style value ++ rest) = dumps style value ++ rest := by
  rw [← encode_flat style 0]
  exact skipWhitespace_encode (flat style) 0 value rest

/-- The decoder reads back a value that the encoder wrote without an indent. -/
theorem parse_dumps (style : Style) (fuel : Nat) (value : Json) (r : Str) (proper : Proper round value)
    (enough : (dumps style value).length < fuel) (stop : stops r = true) :
    parseValue round fuel (dumps style value ++ r) = some (value, r) := by
  rw [← encode_flat style 0] at enough ⊢
  exact (parse_encode (flat style) fuel).1 0 value r proper enough stop

/-- `json.loads` inverts `json.dumps`, also when the text is followed by whitespace. -/
theorem loads_encode (layout : Layout) (value : Json) (proper : Proper round value) (blank : Str)
    (spaces : ∀ c ∈ blank, isWhitespace c = true) :
    loads round (encode layout 0 value ++ blank) = some value := by
  have read := (parse_encode layout ((encode layout 0 value ++ blank).length + 1)).1 0 value blank proper
    (by rw [List.length_append]; omega) (stops_spaces blank spaces)
  have rest : skipWhitespace blank = [] := List.dropWhile_eq_nil_iff.mpr spaces
  rw [loads, skipWhitespace_encode, read]
  simp [rest]

/-- `json.loads` inverts `json.dumps`. -/
theorem loads_dumps (style : Style) (value : Json) (proper : Proper round value) :
    loads round (dumps style value) = some value := by
  have read := loads_encode (flat style) value proper [] (fun _ inside => absurd inside List.not_mem_nil)
  rwa [List.append_nil, encode_flat] at read

/-- The encoder is injective on proper values. -/
theorem dumps_injective (style : Style) (first second : Json) (firstProper : Proper round first)
    (secondProper : Proper round second) (same : dumps style first = dumps style second) :
    first = second := by
  have firstRead := loads_dumps style first firstProper
  rw [same, loads_dumps style second secondProper, Option.some.injEq] at firstRead
  exact firstRead.symm

end Kortex.Json
