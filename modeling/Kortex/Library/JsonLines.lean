import Kortex.Library.Lines

/-
This file settles which rows survive the JSON Lines format of `json.dumps` without `ensure_ascii`.
-/

namespace Kortex.Json

variable (round : FloatText → PyFloat)

/-- The encoder leaves these three line breaks as they are. -/
def isRawBreak (c : Char) : Bool := c.toNat == 0x85 || c.toNat == 0x2028 || c.toNat == 0x2029

theorem isRawBreak_eq (c : Char) :
    isRawBreak c = (Str.isLineBreak c && decide (0x20 ≤ c.toNat)) := by
  rw [Bool.eq_iff_iff]
  simp only [isRawBreak, Str.isLineBreak, Bool.or_eq_true, Bool.and_eq_true, decide_eq_true_eq,
    beq_iff_eq]
  omega

theorem exotic_isLineBreak : Exotic Str.isLineBreak := by
  intro c plain
  simp only [isPlain, Bool.and_eq_true, decide_eq_true_eq] at plain
  rw [Bool.eq_false_iff]
  simp only [Str.isLineBreak, ne_eq, Bool.or_eq_true, Bool.and_eq_true, decide_eq_true_eq,
    beq_iff_eq]
  omega

/-- The text of a value has a line break exactly when one of its strings has a raw one. -/
theorem any_isLineBreak (value : Json) :
    (dumps ⟨false, false⟩ value).any Str.isLineBreak = anyChar isRawBreak value := by
  rw [any_dumps exotic_isLineBreak false value, ← funext isRawBreak_eq]

theorem stops_of_isSpace (c : Char) (rest : Str) (space : Str.isSpace c = true) :
    stops (c :: rest) = true := by
  have digit : c.isDigit = false := by
    by_contra digit
    rw [Bool.not_eq_false] at digit
    have plain := isPlain_of_isDigit c digit
    simp only [Char.isDigit, Bool.and_eq_true, decide_eq_true_eq, ge_iff_le] at digit
    have lower : 48 ≤ c.toNat := digit.1
    simp only [isPlain, Bool.and_eq_true, decide_eq_true_eq] at plain
    simp only [Str.isSpace, Bool.or_eq_true, Bool.and_eq_true, decide_eq_true_eq, beq_iff_eq]
      at space
    omega
  have notMark : c ≠ '.' ∧ c ≠ 'e' ∧ c ≠ 'E' := by
    refine ⟨?_, ?_, ?_⟩ <;> rintro rfl <;> revert space <;> decide
  simp [stops, digit, notMark]

theorem isSpace_of_isWhitespace (c : Char) (space : isWhitespace c = true) :
    Str.isSpace c = true := by
  simp only [isWhitespace, Bool.or_eq_true, beq_iff_eq] at space
  rcases space with ((rfl | rfl) | rfl) | rfl <;> decide

theorem dumps_obj_head (style : Style) (row : List (Str × Json)) :
    ∃ body, dumps style (.obj row) = '{' :: body := by
  cases row with
  | nil => exact ⟨['}'], by rw [dumps]; rfl⟩
  | cons member rest => exact ⟨_, by rw [dumps]⟩

theorem dumps_obj_last (style : Style) (row : List (Str × Json)) :
    (dumps style (.obj row)).getLast? = some '}' := by
  have members : ∀ rest, (dumpsMembers style rest).getLast? = some '}' := by
    intro rest
    induction rest with
    | nil => rfl
    | cons member rest ih => simp [dumpsMembers, List.getLast?_append, ih]
  cases row with
  | nil => rfl
  | cons member rest =>
      simp [dumps, List.getLast?_cons, List.getLast?_append, members]

variable {round}

/-- An object text that is cut at a line break does not parse. -/
theorem loads_cut (style : Style) (row : List (Str × Json)) (proper : Proper round (.obj row))
    (piece rest : Str) (c : Char) (breaks : Str.isLineBreak c = true)
    (text : dumps style (.obj row) = piece ++ c :: rest) :
    Str.strip piece ≠ [] ∧ loads round (Str.strip piece) = none := by
  obtain ⟨body, whole⟩ := dumps_obj_head style row
  have brace : Str.isSpace '{' = false := by decide
  obtain ⟨front, rfl⟩ : ∃ front, piece = '{' :: front := by
    cases piece with
    | nil =>
        rw [text, List.nil_append] at whole
        obtain ⟨rfl, -⟩ := List.cons.inj whole
        simp [Str.isLineBreak] at breaks
    | cons d front =>
        rw [text, List.cons_append] at whole
        obtain ⟨rfl, -⟩ := List.cons.inj whole
        exact ⟨front, rfl⟩
  obtain ⟨spaces, split, allSpaces⟩ := Str.rstrip_append_spaces ('{' :: front)
  have stripped : Str.strip ('{' :: front) = Str.rstrip ('{' :: front) := by
    simp [Str.strip, Str.lstrip, brace]
  obtain ⟨kept, head⟩ : ∃ kept, Str.rstrip ('{' :: front) = '{' :: kept := by
    cases hRest : Str.rstrip ('{' :: front) with
    | nil =>
        rw [hRest, List.nil_append] at split
        have space := allSpaces '{' (by simp [← split])
        simp [brace] at space
    | cons d kept =>
        rw [hRest] at split
        obtain ⟨rfl, -⟩ := List.cons.inj split
        exact ⟨kept, rfl⟩
  rw [stripped, head]
  refine ⟨by simp, ?_⟩
  rw [loads, skipWhitespace_starts '{' kept rfl]
  split
  · rename_i value after parsed
    split
    · rename_i blank
      exfalso
      have stop : stops (after ++ (spaces ++ c :: rest)) = true := by
        cases after with
        | cons d after =>
            have space := List.dropWhile_eq_nil_iff.mp blank d (by simp)
            exact stops_of_isSpace d _ (isSpace_of_isWhitespace d space)
        | nil =>
            cases spaces with
            | nil => exact stops_of_isSpace c rest (Str.isSpace_of_isLineBreak c breaks)
            | cons d spaces => exact stops_of_isSpace d _ (allSpaces d (by simp))
      have longer := (parse_append _).1 _ (spaces ++ c :: rest) value after parsed stop
      rw [← List.append_assoc, ← head, ← split, ← text] at longer
      set fuel := (Str.rstrip ('{' :: front)).length + 1
      have read := @parse_dumps round style
        (max fuel ((dumps style (.obj row)).length + 1)) (.obj row) [] proper (by omega) rfl
      have more := (@parse_mono round fuel
        (max fuel ((dumps style (.obj row)).length + 1)) (by omega)).1 _ _ _ longer
      rw [List.append_nil] at read
      rw [read] at more
      simp at more
    · rfl
  · rfl

/-- The rows whose text has no line break are read from the lines that the encoder wrote, and the reader
raises when there is another one. -/
theorem readLines_join (style : Style) (rows : List (List (Str × Json)))
    (proper : ∀ row ∈ rows, Proper round (.obj row)) :
    readLines round (Str.splitlines (Str.join "\n" (rows.map fun row => dumps style (.obj row)))) =
      if rows.all (fun row => !(dumps style (.obj row)).any Str.isLineBreak) then some (rows.map .obj)
      else none := by
  induction rows with
  | nil => rfl
  | cons row rows ih =>
      set text := dumps style (.obj row) with textEq
      obtain ⟨tail, joined, after⟩ : ∃ tail, Str.join "\n" ((row :: rows).map fun row =>
          dumps style (.obj row)) = text ++ tail ∧ ((∀ c ∈ text, Str.isLineBreak c = false) →
          Str.splitlines (text ++ tail) = text :: Str.splitlines (Str.join "\n" (rows.map fun row =>
            dumps style (.obj row)))) := by
        cases rows with
        | nil =>
            refine ⟨[], by simp [Str.join, textEq], fun free => ?_⟩
            obtain ⟨body, whole⟩ := dumps_obj_head style row
            rw [List.append_nil, Str.splitlines_free text (by simp [textEq, whole]) free]
            rfl
        | cons next rows =>
            refine ⟨'\n' :: Str.join "\n" ((next :: rows).map fun row =>
              dumps style (.obj row)), rfl, fun free => Str.splitlines_newline text _ free⟩
      rw [joined]
      by_cases free : text.any Str.isLineBreak = false
      · have allFree : ∀ c ∈ text, Str.isLineBreak c = false := by
          rw [List.any_eq_false] at free
          exact fun c present => Bool.eq_false_iff.mpr (free c present)
        have stripped : Str.strip text = text := by
          obtain ⟨body, whole⟩ := dumps_obj_head style row
          apply Str.strip_eq_self
          · rw [textEq, whole]
            simp [Str.isSpace]
          · rw [textEq, dumps_obj_last]
            simp [Str.isSpace]
        have nonempty : text ≠ [] := by
          obtain ⟨body, whole⟩ := dumps_obj_head style row
          simp [textEq, whole]
        rw [after allFree, readLines, stripped, if_neg nonempty, textEq,
          loads_dumps _ _ (proper row (by simp)), ih fun row present => proper row (by simp [present])]
        rw [textEq] at free
        by_cases others : (rows.all fun row => !(dumps style (.obj row)).any Str.isLineBreak) = true
        · simp [free, others]
        · simp [free, others]
      · rw [Bool.not_eq_false] at free
        have broken := free
        rw [List.any_eq_true] at broken
        obtain ⟨front, c, rest, split, allFree, breaks⟩ :
            ∃ front c rest, text = front ++ c :: rest ∧
              (∀ d ∈ front, Str.isLineBreak d = false) ∧ Str.isLineBreak c = true := by
          obtain ⟨c, present, breaks⟩ := broken
          refine ⟨text.takeWhile (!Str.isLineBreak ·), ?_⟩
          have dropped : text.dropWhile (!Str.isLineBreak ·) ≠ [] := by
            intro none
            simpa [breaks] using List.dropWhile_eq_nil_iff.mp none c present
          obtain ⟨d, rest, headEq⟩ := List.exists_cons_of_ne_nil dropped
          refine ⟨d, rest, by rw [← headEq, List.takeWhile_append_dropWhile], ?_, ?_⟩
          · intro e inside
            simpa using List.mem_takeWhile_imp inside
          · have stop := List.head_dropWhile_not (!Str.isLineBreak ·) dropped
            simpa [headEq] using stop
        have cut := loads_cut style row (proper row (by simp)) front rest c breaks split
        obtain ⟨lines, linesEq⟩ := Str.splitlines_break front (rest ++ tail) c allFree breaks
        rw [textEq] at free
        rw [split, List.append_assoc, List.cons_append, linesEq, readLines, if_neg cut.1, cut.2]
        simp [free]

end Kortex.Json
