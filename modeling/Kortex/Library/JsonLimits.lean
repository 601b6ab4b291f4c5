import Kortex.Library.JsonRoundTrip

/-
This file says when `int()` refuses a literal that the decoder meets, and what the decoder reads otherwise.
-/

namespace Kortex.Json

/-- These are the digits of an integer literal. -/
def digitCount (integer : Str) : Nat := (integer.filter Char.isDigit).length

variable (round : FloatText → PyFloat) (limit : Nat)

/-- The text starts with an integer that has too many digits. -/
def overlongInteger (s : Str) : Bool :=
  match scanNumber s with
  | some (integer, [], _) => decide (limit < digitCount integer)
  | _ => false

mutual
/-- The decoder meets such an integer in the value. -/
def overlongValue : Nat → Str → Bool
  | 0, _ => false
  | fuel + 1, s =>
      match s with
      | '"' :: _ => false
      | '{' :: rest => overlongMembers fuel (skipWhitespace rest)
      | '[' :: rest => overlongItems fuel (skipWhitespace rest)
      | s => overlongInteger limit s

/-- The decoder meets one in the items, before it stops at an error. -/
def overlongItems : Nat → Str → Bool
  | 0, _ => false
  | fuel + 1, s =>
      overlongValue fuel s ||
        match parseValue round fuel s with
        | none => false
        | some (_, rest) =>
            match skipWhitespace rest with
            | ',' :: rest => overlongItems fuel (skipWhitespace rest)
            | _ => false

/-- The decoder meets one in the members, before it stops at an error. -/
def overlongMembers : Nat → Str → Bool
  | 0, _ => false
  | fuel + 1, s =>
      match s with
      | '"' :: rest =>
          match parseString fuel rest with
          | none => false
          | some (_, rest) =>
              match skipWhitespace rest with
              | ':' :: rest =>
                  overlongValue fuel (skipWhitespace rest) ||
                    match parseValue round fuel (skipWhitespace rest) with
                    | none => false
                    | some (_, rest) =>
                        match skipWhitespace rest with
                        | ',' :: rest => overlongMembers fuel (skipWhitespace rest)
                        | _ => false
              | _ => false
      | _ => false
end

/-- An integer with too many digits stands in the text before the first syntax error. -/
def overlong (s : Str) : Bool := overlongValue round limit (s.length + 1) (skipWhitespace s)

mutual
/-- No integer of the value has too many digits. -/
def Short : Json → Prop
  | .int i => digitCount (Str.ofInt i) ≤ limit
  | .arr items => ShortItems items
  | .obj members => ShortMembers members
  | _ => True

def ShortItems : List Json → Prop
  | [] => True
  | item :: rest => Short item ∧ ShortItems rest

def ShortMembers : List (Str × Json) → Prop
  | [] => True
  | (_, value) :: rest => Short value ∧ ShortMembers rest
end

variable {round : FloatText → PyFloat} {limit : Nat}

theorem shortItems_iff (items : List Json) : ShortItems limit items ↔ ∀ item ∈ items, Short limit item := by
  induction items with
  | nil => simp [ShortItems]
  | cons item rest ih => simp [ShortItems, ih]

theorem shortMembers_iff (members : List (Str × Json)) :
    ShortMembers limit members ↔ ∀ m ∈ members, Short limit m.2 := by
  induction members with
  | nil => simp [ShortMembers]
  | cons member rest ih =>
      obtain ⟨key, value⟩ := member
      simp [ShortMembers, ih]

/-! The text of an integer has no more digits than the literal that it is read from. -/

theorem digitsValue_append (digits : Str) (c : Char) :
    digitsValue (digits ++ [c]) = 10 * digitsValue digits + (c.toNat - 48) := by
  simp [digitsValue]

theorem digitsValue_lt (digits : Str) (all : ∀ c ∈ digits, c.isDigit = true) :
    digitsValue digits < 10 ^ digits.length := by
  induction digits using List.reverseRecOn with
  | nil => simp [digitsValue]
  | append_singleton digits c ih =>
      have smaller := ih fun d inside => all d (List.mem_append_left _ inside)
      have digit := all c (by simp)
      simp only [Char.isDigit, Bool.and_eq_true, decide_eq_true_eq, ge_iff_le] at digit
      have upper : c.toNat ≤ 57 := digit.2
      rw [digitsValue_append, List.length_append, List.length_singleton, pow_succ]
      omega

theorem ofNat_length (digits : Str) (all : ∀ c ∈ digits, c.isDigit = true) (nonempty : digits ≠ []) :
    (Str.ofNat (digitsValue digits)).length ≤ digits.length := by
  rw [Str.ofNat]
  split
  · exact List.length_pos_iff.mpr nonempty
  · rw [List.length_map, List.length_reverse]
    exact (Nat.digits_length_le_iff (by omega) _).mpr (digitsValue_lt digits all)

theorem digitCount_le (text : Str) : digitCount text ≤ text.length := List.length_filter_le _ _

theorem digitCount_of_digits (digits : Str) (all : ∀ c ∈ digits, c.isDigit = true) :
    digitCount digits = digits.length := by
  rw [digitCount, List.filter_eq_self.mpr all]

theorem digitCount_minus (text : Str) : digitCount ('-' :: text) = digitCount text := rfl

theorem digitCount_ofInt (n : Nat) : digitCount (Str.ofInt n) ≤ (Str.ofNat n).length ∧
    digitCount (Str.ofInt (-n)) ≤ (Str.ofNat n).length := by
  refine ⟨digitCount_le _, ?_⟩
  cases n with
  | zero => exact digitCount_le _
  | succ n => exact digitCount_le (Str.ofNat (n + 1))

theorem scanUnsigned_digits (s integer rest : Str) (scanned : scanUnsigned s = some (integer, rest)) :
    integer ≠ [] ∧ ∀ c ∈ integer, c.isDigit = true := by
  unfold scanUnsigned at scanned
  split at scanned
  · obtain ⟨rfl, -⟩ := Prod.mk.inj (Option.some.inj scanned)
    simp
  · rename_i c rest' _
    split at scanned
    · rename_i digit
      obtain ⟨rfl, -⟩ := Prod.mk.inj (Option.some.inj scanned)
      refine ⟨?_, fun d inside => ?_⟩
      · rw [List.takeWhile_cons_of_pos digit]
        exact List.cons_ne_nil _ _
      · exact List.mem_takeWhile_imp inside
    · cases scanned
  · cases scanned

theorem digitCount_integerValue (s integer rest : Str) (scanned : scanInteger s = some (integer, rest)) :
    digitCount (Str.ofInt (integerValue integer)) ≤ digitCount integer := by
  unfold scanInteger at scanned
  split at scanned
  · obtain ⟨⟨digits, rest'⟩, unsigned, same⟩ := Option.map_eq_some_iff.mp scanned
    obtain ⟨rfl, -⟩ := Prod.mk.inj same
    obtain ⟨nonempty, all⟩ := scanUnsigned_digits _ _ _ unsigned
    calc digitCount (Str.ofInt (-(digitsValue digits : Int)))
        ≤ (Str.ofNat (digitsValue digits)).length := (digitCount_ofInt _).2
      _ ≤ digits.length := ofNat_length digits all nonempty
      _ = digitCount ('-' :: digits) := by rw [digitCount_minus, digitCount_of_digits digits all]
  · obtain ⟨nonempty, all⟩ := scanUnsigned_digits _ _ _ scanned
    have value : integerValue integer = digitsValue integer := by
      unfold integerValue
      split
      · rename_i digits
        exact absurd (all '-' List.mem_cons_self) (by decide)
      · rfl
    rw [value, digitCount_of_digits integer all]
    exact (digitCount_ofInt _).1.trans (ofNat_length integer all nonempty)

/-! What holds of every value that the decoder reads. -/

/-- The property holds of the plain values, and of an array or an object when it does inside. -/
structure Closed (P : Json → Prop) : Prop where
  null : P .null
  bool : ∀ b, P (.bool b)
  str : ∀ s, P (.str s)
  arr : ∀ items, (∀ item ∈ items, P item) → P (.arr items)
  obj : ∀ members, (members.map Prod.fst).Nodup → (∀ m ∈ members, P m.2) → P (.obj members)

theorem overlongValue_number (fuel : Nat) (c : Char) (s : Str) (number : startsOther c = false) :
    overlongValue round limit (fuel + 1) (c :: s) = overlongInteger limit (c :: s) := by
  simp only [startsOther, Bool.or_eq_false_iff, beq_eq_false_iff_ne, ne_eq, and_assoc] at number
  unfold overlongValue
  split <;> simp_all

/-- A closed property that holds of the numbers holds of every value that the decoder reads, if it meets no
integer with too many digits. -/
theorem parse_closed {P : Json → Prop} (closed : Closed P)
    (numbers : ∀ s value r, overlongInteger limit s = false → parseNumber round s = some (value, r) → P value)
    (fuel : Nat) :
    (∀ s value r, overlongValue round limit fuel s = false → parseValue round fuel s = some (value, r) →
      P value) ∧
    (∀ s items r, overlongItems round limit fuel s = false → parseItems round fuel s = some (items, r) →
      ∀ item ∈ items, P item) ∧
    (∀ s members r, overlongMembers round limit fuel s = false →
      parseMembers round fuel s = some (members, r) → ∀ m ∈ members, P m.2) := by
  induction fuel with
  | zero => simp [parseValue, parseItems, parseMembers]
  | succ fuel ih =>
      obtain ⟨valueStep, itemsStep, membersStep⟩ := ih
      refine ⟨?_, ?_, ?_⟩
      · intro s value r fine parsed
        rw [parseValue_iff] at parsed
        cases parsed with
        | string read => exact closed.str _
        | noMembers _ => exact closed.obj [] List.nodup_nil (by simp)
        | members read =>
            exact closed.obj _ (Dict.nodup_ofPairs _) fun m inside =>
              membersStep _ _ _ fine read m (Dict.mem_ofPairs _ m inside)
        | noItems _ => exact closed.arr [] (by simp)
        | items read => exact closed.arr _ (itemsStep _ _ _ fine read)
        | null => exact closed.null
        | true => exact closed.bool _
        | false => exact closed.bool _
        | number read =>
            obtain ⟨c, tail, rfl, number⟩ := parseNumber_head s value r read
            rw [overlongValue_number fuel c tail number] at fine
            exact numbers _ _ _ fine read
      · intro s items r fine parsed
        rw [parseItems_iff] at parsed
        rw [overlongItems, Bool.or_eq_false_iff] at fine
        cases parsed with
        | last read _ =>
            intro item inside
            exact List.mem_singleton.mp inside ▸ valueStep _ _ _ fine.1 read
        | more read comma others =>
            have later := fine.2
            simp only [read, comma] at later
            exact List.forall_mem_cons.mpr ⟨valueStep _ _ _ fine.1 read, itemsStep _ _ _ later others⟩
      · intro s members r fine parsed
        rw [parseMembers_iff] at parsed
        cases parsed with
        | last name colon read _ =>
            simp only [overlongMembers, name, colon, Bool.or_eq_false_iff] at fine
            intro m inside
            exact List.mem_singleton.mp inside ▸ valueStep _ _ _ fine.1 read
        | more name colon read comma others =>
            simp only [overlongMembers, name, colon, Bool.or_eq_false_iff, read, comma] at fine
            exact List.forall_mem_cons.mpr ⟨valueStep _ _ _ fine.1 read, membersStep _ _ _ fine.2 others⟩

theorem closed_short : Closed (Short limit) where
  null := trivial
  bool _ := trivial
  str _ := trivial
  arr _ items := (shortItems_iff _).mpr items
  obj _ _ members := (shortMembers_iff _).mpr members

theorem closed_proper : Closed (Proper round) where
  null := trivial
  bool _ := trivial
  str _ := trivial
  arr _ items := (properItems_iff _).mpr items
  obj _ distinct members := ⟨distinct, (properMembers_iff _).mpr members⟩

/-- A number is an integer of the text, or a float that is special or comes from a literal. -/
theorem parseNumber_cases (s : Str) (value : Json) (r : Str)
    (parsed : parseNumber round s = some (value, r)) :
    (∃ integer, scanNumber s = some (integer, [], r) ∧ value = .int (integerValue integer)) ∨
      ∃ x, value = .float x ∧ ∀ repr, x = .finite repr → ∃ text, round text = .finite repr := by
  unfold parseNumber at parsed
  split at parsed
  · rename_i integer tail rest scanned
    obtain ⟨read, converted, same⟩ := Option.map_eq_some_iff.mp parsed
    obtain ⟨rfl, rfl⟩ := Prod.mk.inj same
    rw [number] at converted
    split at converted
    · rename_i whole
      exact Or.inl ⟨integer, whole ▸ scanned, (Option.some.inj converted).symm⟩
    · split at converted
      · exact Or.inr ⟨_, (Option.some.inj converted).symm, fun repr same => ⟨_, same⟩⟩
      · cases converted
  · right
    split at parsed
    · obtain ⟨rfl, rfl⟩ := Prod.mk.inj (Option.some.inj parsed)
      exact ⟨.nan, rfl, fun _ same => by cases same⟩
    split at parsed
    · obtain ⟨rfl, rfl⟩ := Prod.mk.inj (Option.some.inj parsed)
      exact ⟨.inf false, rfl, fun _ same => by cases same⟩
    split at parsed
    · obtain ⟨rfl, rfl⟩ := Prod.mk.inj (Option.some.inj parsed)
      exact ⟨.inf true, rfl, fun _ same => by cases same⟩
    · cases parsed

theorem short_of_parseNumber (s : Str) (value : Json) (r : Str) (fine : overlongInteger limit s = false)
    (parsed : parseNumber round s = some (value, r)) : Short limit value := by
  rcases parseNumber_cases s value r parsed with ⟨integer, scanned, rfl⟩ | ⟨x, rfl, _⟩
  · rw [overlongInteger, scanned, decide_eq_false_iff_not, Nat.not_lt] at fine
    obtain ⟨⟨integer', rest⟩, start, same⟩ := Option.map_eq_some_iff.mp scanned
    obtain ⟨rfl, _⟩ := Prod.mk.inj same
    exact (digitCount_integerValue s integer' rest start).trans fine
  · exact trivial

/-- The text that `repr` gives to a float denotes this float. -/
def Stable (round : FloatText → PyFloat) : Prop := ∀ x y, round x = .finite y → round y = .finite y

theorem proper_of_parseNumber (stable : Stable round) (s : Str) (value : Json) (r : Str)
    (parsed : parseNumber round s = some (value, r)) : Proper round value := by
  rcases parseNumber_cases s value r parsed with ⟨integer, _, rfl⟩ | ⟨x, rfl, literal⟩
  · exact trivial
  · cases x with
    | finite repr =>
        obtain ⟨text, same⟩ := literal repr rfl
        exact stable text repr same
    | nan => exact trivial
    | inf negative => exact trivial

/-- A value that is read from a text without such an integer can be written and read again. -/
theorem proper_short_of_loads (stable : Stable round) (s : Str) (value : Json)
    (fine : overlong round limit s = false) (loaded : loads round s = some value) :
    Proper round value ∧ Short limit value := by
  rw [loads] at loaded
  split at loaded
  · rename_i read rest parsed
    split at loaded
    · obtain rfl := Option.some.inj loaded
      rw [overlong] at fine
      have proper := (@parse_closed round limit (Proper round) closed_proper
        (fun s value r _ => proper_of_parseNumber stable s value r) (s.length + 1)).1 _ _ _ fine parsed
      have short := (@parse_closed round limit (Short limit) closed_short
        short_of_parseNumber (s.length + 1)).1 _ _ _ fine parsed
      exact ⟨proper, short⟩
    · cases loaded
  · cases loaded

/-! The encoder writes no such integer for a short value. -/

theorem overlongInteger_finite (repr : FloatText) (r : Str) (stop : stops r = true) :
    overlongInteger limit (repr.text ++ r) = false := by
  obtain ⟨integer, tail, scanned, _, nonempty⟩ := repr.scanned
  have continued : scanNumber (repr.text ++ r) = some (integer, tail, r) :=
    scanNumber_append _ r integer tail [] scanned (by simpa using stop)
  obtain ⟨c, others, rfl⟩ := List.exists_cons_of_ne_nil nonempty
  rw [overlongInteger, continued]

theorem overlongInteger_float (x : PyFloat) (r : Str) (stop : stops r = true) :
    overlongInteger limit (x.text ++ r) = false := by
  cases x with
  | nan =>
      have scanned := (parseNumber_constant 'N' ['a', 'N'] r (Or.inl rfl)).1
      change overlongInteger limit ('N' :: ['a', 'N'] ++ r) = false
      rw [overlongInteger, scanned]
  | inf negative =>
      have scanned := parseNumber_constant 'I' "nfinity".toList r (Or.inr rfl)
      cases negative with
      | false =>
          change overlongInteger limit ('I' :: "nfinity".toList ++ r) = false
          rw [overlongInteger, scanned.1]
      | true =>
          change overlongInteger limit ('-' :: 'I' :: "nfinity".toList ++ r) = false
          rw [overlongInteger, scanned.2]
  | finite repr => exact overlongInteger_finite repr r stop

theorem overlongInteger_int (i : Int) (r : Str) (stop : stops r = true) (short : Short limit (.int i)) :
    overlongInteger limit (Str.ofInt i ++ r) = false := by
  rw [overlongInteger, scanNumber_ofInt i r stop]
  exact decide_eq_false (Nat.not_lt.mpr short)

theorem overlongItems_bracket (fuel : Nat) (s : Str) : overlongItems round limit fuel (']' :: s) = false := by
  cases fuel with
  | zero => rfl
  | succ fuel =>
      have value : overlongValue round limit fuel (']' :: s) = false := by
        cases fuel with
        | zero => rfl
        | succ fuel =>
            rw [overlongValue_number fuel ']' s rfl]
            simp [overlongInteger, scanNumber, scanInteger, scanUnsigned]
      rw [overlongItems, value, parseValue_bracket]
      rfl

theorem overlongMembers_brace (fuel : Nat) (s : Str) :
    overlongMembers round limit fuel ('}' :: s) = false := by
  cases fuel with
  | zero => rfl
  | succ fuel => rfl

/-- No loop of the decoder meets an integer with too many digits in the text of a short value. -/
theorem overlong_encode_step (layout : Layout) (fuel : Nat) :
    (∀ level value r, Proper round value → Short limit value → (encode layout level value).length < fuel →
      stops r = true → overlongValue round limit fuel (encode layout level value ++ r) = false) ∧
    (∀ level item rest r, Proper round item → ProperItems round rest → Short limit item →
      ShortItems limit rest →
      (encode layout (level + 1) item).length + (encodeItems layout level rest).length < fuel →
      overlongItems round limit fuel
        (encode layout (level + 1) item ++ (encodeItems layout level rest ++ r)) = false) ∧
    (∀ level key value rest r, Proper round value → ProperMembers round rest → Short limit value →
      ShortMembers limit rest →
      (quote layout.style key).length + (encode layout (level + 1) value).length +
        (encodeMembers layout level rest).length < fuel →
      overlongMembers round limit fuel (quote layout.style key ++ (':' :: (layout.afterColon ++
        (encode layout (level + 1) value ++ (encodeMembers layout level rest ++ r))))) = false) := by
  induction fuel with
  | zero => simp
  | succ fuel ih =>
      obtain ⟨valueStep, itemsStep, membersStep⟩ := ih
      refine ⟨?_, ?_, ?_⟩
      · intro level value r proper short enough stop
        match value, proper, short, enough with
        | .null, _, _, _ | .bool true, _, _, _ | .bool false, _, _, _ | .str _, _, _, _ => rfl
        | .int i, _, short, _ =>
            obtain ⟨c, tail, text, head⟩ := ofInt_head i
            rw [encode, ← overlongInteger_int i r stop short, text]
            exact overlongValue_number fuel c _ (starts_of_number c head).2
        | .float x, proper, _, _ =>
            have exactly : ∀ repr, x = .finite repr → round repr = .finite repr := by
              rintro repr rfl
              exact proper
            have read := parseNumber_float x r stop exactly
            obtain ⟨c, tail, text, other⟩ := parseNumber_head (x.text ++ r) _ _ read
            rw [encode, ← @overlongInteger_float limit x r stop, text]
            exact overlongValue_number fuel c _ other
        | .arr [], _, _, _ => exact overlongItems_bracket fuel r
        | .arr (item :: rest), proper, short, enough =>
            simp only [encode, List.length_cons, List.length_append] at enough
            simp only [encode, List.cons_append, List.append_assoc]
            rw [overlongValue, skipWhitespace_opening, skipWhitespace_encode]
            exact itemsStep level item rest r proper.1 proper.2 short.1 short.2 (by omega)
        | .obj [], _, _, _ => exact overlongMembers_brace fuel r
        | .obj ((key, value) :: rest), proper, short, enough =>
            simp only [encode, List.length_cons, List.length_append] at enough
            simp only [encode, List.cons_append, List.append_assoc]
            rw [overlongValue, skipWhitespace_opening, skipWhitespace_quote]
            exact membersStep level key value rest r proper.2.1 proper.2.2 short.1 short.2 (by omega)
      · intro level item rest r itemProper restProper itemShort restShort enough
        have later := encodeItems_length layout level rest
        have stop := stops_encodeItems layout level rest r
        have first := valueStep (level + 1) item (encodeItems layout level rest ++ r) itemProper itemShort
          (by omega) stop
        have read := (@parse_encode round layout fuel).1 (level + 1) item (encodeItems layout level rest ++ r)
          itemProper (by omega) stop
        rw [overlongItems, first, read]
        cases rest with
        | nil =>
            simp only [encodeItems, List.append_assoc, skipWhitespace_closing]
            rfl
        | cons next rest =>
            simp only [encodeItems, List.length_append, List.length_cons] at enough
            simp only [encodeItems, List.cons_append, List.append_assoc, skipWhitespace_starts ',' _ rfl,
              skipWhitespace_afterComma, skipWhitespace_encode, Bool.false_or]
            exact itemsStep level next rest r restProper.1 restProper.2 restShort.1 restShort.2 (by omega)
      · intro level key value rest r valueProper restProper valueShort restShort enough
        have later := encodeMembers_length layout level rest
        have stop := stops_encodeMembers layout level rest r
        have first := valueStep (level + 1) value (encodeMembers layout level rest ++ r) valueProper
          valueShort (by omega) stop
        have read := (@parse_encode round layout fuel).1 (level + 1) value
          (encodeMembers layout level rest ++ r) valueProper (by omega) stop
        obtain ⟨body, text, name⟩ := parseString_after_quote layout.style key (':' :: (layout.afterColon ++
          (encode layout (level + 1) value ++ (encodeMembers layout level rest ++ r)))) fuel (by omega)
        rw [text, List.cons_append, overlongMembers]
        simp only [name, skipWhitespace_starts ':' _ rfl, skipWhitespace_afterColon, skipWhitespace_encode,
          first, read, Bool.false_or]
        cases rest with
        | nil =>
            simp only [encodeMembers, List.append_assoc, skipWhitespace_closing]
            rfl
        | cons next rest =>
            obtain ⟨nextKey, next⟩ := next
            simp only [encodeMembers, List.length_append, List.length_cons] at enough
            simp only [encodeMembers, List.cons_append, List.append_assoc, skipWhitespace_starts ',' _ rfl,
              skipWhitespace_afterComma, skipWhitespace_quote]
            exact membersStep level nextKey next rest r restProper.1 restProper.2 restShort.1 restShort.2
              (by omega)

theorem overlong_encode (layout : Layout) (value : Json) (proper : Proper round value)
    (short : Short limit value) (blank : Str) (spaces : ∀ c ∈ blank, isWhitespace c = true) :
    overlong round limit (encode layout 0 value ++ blank) = false := by
  rw [overlong, skipWhitespace_encode]
  exact (overlong_encode_step layout _).1 0 value blank proper short (by rw [List.length_append]; omega)
    (stops_spaces blank spaces)

end Kortex.Json
