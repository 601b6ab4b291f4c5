import Kortex.Library.JsonLimits
import Kortex.Library.JsonLines

/-
This file proves what the decoder makes of an object that stands in other text.
-/

namespace Kortex.Json

variable {round : FloatText → PyFloat}

theorem encode_obj_head (layout : Layout) (level : Nat) (members : List (Str × Json)) :
    ∃ body, encode layout level (.obj members) = '{' :: body := by
  cases members with
  | nil => exact ⟨['}'], by rw [encode]; rfl⟩
  | cons member rest => exact ⟨_, by rw [encode]⟩

theorem encode_obj_last (layout : Layout) (level : Nat) (members : List (Str × Json)) :
    (encode layout level (.obj members)).getLast? = some '}' := by
  have tail : ∀ rest, (encodeMembers layout level rest).getLast? = some '}' := by
    intro rest
    induction rest with
    | nil => simp [encodeMembers]
    | cons member rest ih => simp [encodeMembers, List.getLast?_append, List.getLast?_cons, ih]
  cases members with
  | nil => rfl
  | cons member rest => simp [encode, List.getLast?_append, List.getLast?_cons, tail]

/-- The end of an object does not depend on what follows. -/
theorem parseValue_encode_obj (layout : Layout) (fuel level : Nat) (members : List (Str × Json)) (r : Str)
    (proper : Proper round (.obj members)) (enough : (encode layout level (.obj members)).length < fuel) :
    parseValue round fuel (encode layout level (.obj members) ++ r) = some (.obj members, r) := by
  have alone := (parse_encode layout fuel).1 level (.obj members) [] proper enough rfl
  obtain ⟨body, text⟩ := encode_obj_head layout level members
  rw [List.append_nil] at alone
  rw [text] at alone ⊢
  cases fuel with
  | zero => cases alone
  | succ fuel =>
      rw [parseValue_iff] at alone
      rw [List.cons_append, parseValue_iff]
      generalize value : Value.obj members = v at alone
      generalize front : ([] : Str) = rest at alone
      cases alone with
      | noMembers closed =>
          subst front
          exact .noMembers (skipWhitespace_append _ r _ _ closed)
      | members read =>
          subst front
          have filled := skipWhitespace_ne_nil fuel _ (Or.inr (Or.inr (by rw [read]; rfl)))
          have continued := (parse_append fuel).2.2 _ r _ _ read
          rw [← skipWhitespace_append_of_ne _ r filled] at continued
          exact .members continued
      | number read =>
          obtain ⟨c, tail, same, other⟩ := parseNumber_head _ _ _ read
          rw [← (List.cons.inj same).1] at other
          cases other

theorem overlongValue_encode_obj (limit : Nat) (layout : Layout) (fuel level : Nat)
    (members : List (Str × Json)) (r : Str) (proper : Proper round (.obj members))
    (short : Short limit (.obj members)) (enough : (encode layout level (.obj members)).length < fuel) :
    overlongValue round limit fuel (encode layout level (.obj members) ++ r) = false := by
  cases fuel with
  | zero => rfl
  | succ fuel =>
      cases members with
      | nil => exact overlongMembers_brace fuel r
      | cons member rest =>
          obtain ⟨key, value⟩ := member
          simp only [encode, List.length_cons, List.length_append] at enough
          simp only [encode, List.cons_append, List.append_assoc]
          rw [overlongValue, skipWhitespace_opening, skipWhitespace_quote]
          exact (overlong_encode_step layout fuel).2.2 level key value rest r proper.2.1 proper.2.2 short.1
            short.2 (by omega)

/-- This character starts no value, or one of the words. -/
def speaks (c : Char) : Bool := !(c == '"' || c == '[' || c == '{' || c == '-' || c.isDigit)

theorem scanNumber_speaks (c : Char) (s : Str) (speech : speaks c = true) : scanNumber (c :: s) = none := by
  by_contra scanned
  obtain ⟨d, rest, same, head⟩ := scanNumber_head (c :: s) (Option.isSome_iff_ne_none.mpr scanned)
  rw [← (List.cons.inj same).1] at head
  simp only [speaks, Bool.not_eq_true', Bool.or_eq_false_iff, beq_eq_false_iff_ne] at speech
  rcases head with minus | digit
  · exact speech.1.2 minus
  · rw [digit] at speech
    exact absurd speech.2 (by simp)

/-- Behind a word the decoder meets the rest of the text, which is not blank. -/
theorem skipWhitespace_after_word (word rest : Str) (free : '{' ∉ word) (object : '{' ∈ word ++ rest) :
    skipWhitespace rest ≠ [] := by
  intro blank
  have inside := (List.mem_append.mp object).resolve_left free
  have space := List.dropWhile_eq_nil_iff.mp blank '{' inside
  exact absurd space (by decide)

theorem parseNumber_speaks (c : Char) (s : Str) (speech : speaks c = true) (value : Json) (rest : Str)
    (read : parseNumber round (c :: s) = some (value, rest)) :
    ∃ word : Str, '{' ∉ word ∧ c :: s = word ++ rest := by
  have starts (word : Str) (start : word.isPrefixOf (c :: s) = true) :
      c :: s = word ++ (c :: s).drop word.length := by
    obtain ⟨back, whole⟩ := List.isPrefixOf_iff_prefix.mp start
    rw [← whole, List.drop_left]
  rw [parseNumber, scanNumber_speaks c s speech] at read
  dsimp only at read
  split at read
  · next start =>
      obtain ⟨-, rfl⟩ := Prod.mk.inj (Option.some.inj read)
      exact ⟨"NaN", by decide, starts _ start⟩
  · split at read
    · next start =>
        obtain ⟨-, rfl⟩ := Prod.mk.inj (Option.some.inj read)
        exact ⟨"Infinity", by decide, starts _ start⟩
    · split at read
      · next start =>
          obtain ⟨-, rfl⟩ := Prod.mk.inj (Option.some.inj read)
          exact ⟨"-Infinity", by decide, starts _ start⟩
      · cases read

/-- Text that starts with speech does not decode when it has an object. -/
theorem loads_speech (c : Char) (s : Str) (speech : speaks c = true) (visible : isWhitespace c = false)
    (object : '{' ∈ c :: s) : loads round (c :: s) = none := by
  have start : skipWhitespace (c :: s) = c :: s := List.dropWhile_cons_of_neg (by simp [visible])
  have after (value : Json) (rest : Str)
      (read : parseValue round ((c :: s).length + 1) (c :: s) = some (value, rest)) :
      skipWhitespace rest ≠ [] := by
    rw [parseValue_iff] at read
    generalize whole : c :: s = text at read object
    cases read with
    | string _ | noMembers _ | members _ | noItems _ | items _ =>
        rw [(List.cons.inj whole).1] at speech
        cases speech
    | null => exact skipWhitespace_after_word "null" rest (by decide) object
    | true => exact skipWhitespace_after_word "true" rest (by decide) object
    | false => exact skipWhitespace_after_word "false" rest (by decide) object
    | number read =>
        subst whole
        obtain ⟨word, free, split⟩ := parseNumber_speaks c s speech value rest read
        rw [split] at object
        exact skipWhitespace_after_word word rest free object
  rw [loads, start]
  split
  · next value rest read => exact if_neg (after value rest read)
  · rfl

theorem overlong_speech (limit : Nat) (c : Char) (s : Str) (speech : speaks c = true)
    (visible : isWhitespace c = false) : overlong round limit (c :: s) = false := by
  have start : skipWhitespace (c :: s) = c :: s := List.dropWhile_cons_of_neg (by simp [visible])
  have scanned := scanNumber_speaks c s speech
  rw [overlong, start]
  simp only [speaks, Bool.not_eq_true', Bool.or_eq_false_iff, beq_eq_false_iff_ne] at speech
  unfold overlongValue
  split
  · rfl
  · next same => exact absurd (List.cons.inj same).1 speech.1.1.2
  · next same => exact absurd (List.cons.inj same).1 speech.1.1.1.2
  · rw [overlongInteger, scanned]

end Kortex.Json
