import Kortex.Library.RegexText
import Kortex.Proof.PiiPolicy

/-
This file proves when the number of a card is found among other text.
-/

namespace Kortex.PiiDetector

open Regex

variable {u : Unicode}

/-- A decimal digit of any script is a character of a word. -/
def DigitsAreWords (u : Unicode) : Prop := ∀ c, u.isDigit c = true → u.isWord c = true

/-- These characters may stand between the digits of a card. -/
def isSeparator (c : Char) : Bool := c == ' ' || c == '-'

theorem isSeparator_eq_false_iff (c : Char) : isSeparator c = false ↔ ¬c = ' ' ∧ ¬c = '-' := by
  simp [isSeparator]

theorem isSeparator_eq_false (accepts : Char → Bool) (space : accepts ' ' = false)
    (hyphen : accepts '-' = false) (c : Char) (accepted : accepts c = true) : isSeparator c = false := by
  cases separates : isSeparator c with
  | false => rfl
  | true =>
      rw [isSeparator, Bool.or_eq_true, beq_iff_eq, beq_iff_eq] at separates
      rcases separates with rfl | rfl
      · exact absurd accepted (by rw [space]; exact Bool.false_ne_true)
      · exact absurd accepted (by rw [hyphen]; exact Bool.false_ne_true)

theorem isDigit_eq_false (standard : u.Standard) (c : Char) (ascii : c.toNat < 128)
    (other : Unicode.ascii.isDigit c = false) : u.isDigit c = false := by
  rw [isDigit_of_ascii standard c ascii, other]

theorem isSeparator_of_isDigit (standard : u.Standard) (c : Char) (digit : u.isDigit c = true) :
    isSeparator c = false :=
  isSeparator_eq_false u.isDigit (isDigit_eq_false standard ' ' (by decide) (by decide))
    (isDigit_eq_false standard '-' (by decide) (by decide)) c digit

/-! These are the characters of the findings. -/

theorem closes_of_mem (r : Regex) (inside : r ∈ patterns u) : r.Closes u.isWord := by
  simp only [patterns, List.mem_cons, List.not_mem_nil, or_false] at inside
  rcases inside with rfl | rfl | rfl | rfl | rfl | rfl | rfl <;> exact rfl

/-- Only an address may start with a separator. -/
theorem starts_of_mem (standard : u.Standard) (r : Regex) (inside : r ∈ patterns u) :
    r = email u ∨ r.Starts fun c => isSeparator c = false := by
  have digit := eq_true (isSeparator_of_isDigit standard)
  have upper := eq_true (isSeparator_eq_false isUpper (by decide) (by decide))
  simp only [isSeparator_eq_false_iff] at digit upper
  simp only [patterns, List.mem_cons, List.not_mem_nil, or_false] at inside
  rcases inside with rfl | rfl | rfl | rfl | rfl | rfl | rfl
  · exact Or.inl rfl
  all_goals
    right
    simp [secretPrefixes, card, iban, ssn, phone, ipv4, seqs, alts, Unicode.boundary, Unicode.digit,
      atLeast, between, exactly, Regex.optional, oneOfChars, Starts, Only, starts_chars, only_chars,
      isSeparator_eq_false_iff, digit, upper]

/-- Only a secret may end with a separator. -/
theorem finishes_of_mem (standard : u.Standard) (r : Regex) (inside : r ∈ patterns u) :
    r = secretPrefixes u ∨ r.Finishes fun c => isSeparator c = false := by
  have digit := eq_true (isSeparator_of_isDigit standard)
  have letter := eq_true (isSeparator_eq_false isLetter (by decide) (by decide))
  have upper := eq_true (isSeparator_eq_false isUpperOrDigit (by decide) (by decide))
  simp only [isSeparator_eq_false_iff] at digit letter upper
  simp only [patterns, List.mem_cons, List.not_mem_nil, or_false] at inside
  rcases inside with rfl | rfl | rfl | rfl | rfl | rfl | rfl
  case inr.inl => exact Or.inl rfl
  all_goals
    right
    simp [email, card, iban, ssn, phone, ipv4, seqs, Unicode.boundary, Unicode.digit, atLeast, between,
      exactly, Regex.optional, oneOfChars, Finishes, Only, only_chars, isSeparator_eq_false_iff, digit,
      letter, upper]

theorem email_needs : (email u).Needs fun c => c = '@' := by
  simp [email, seqs, needs_chars, Needs]

theorem email_only (standard : u.Standard) : (email u).Only fun c => c ≠ ' ' := by
  have word : u.isWord ' ' = false := isWord_of_ascii standard ' ' (by decide)
  simp only [email, seqs, List.foldr, Unicode.boundary, atLeast, Only, only_chars, accepts_ne_iff, word,
    Bool.false_or, and_true, true_and]
  simp [isLetter, range]

theorem secret_only : (secretPrefixes u).Only fun c => c ≠ ' ' := by
  simp only [secretPrefixes, seqs, alts, List.foldr, Unicode.boundary, atLeast, between, exactly,
    oneOfChars, Only, only_chars, accepts_ne_iff, and_true, true_and]
  simp [isToken, isUpperOrDigit, isUpper, isLetter, range]

theorem secret_starts : (secretPrefixes u).Starts fun c => isLetter c = true := by
  simp [secretPrefixes, seqs, alts, Unicode.boundary, atLeast, between, exactly, oneOfChars, Starts, Only,
    starts_chars, only_chars, isLetter, range]

/-- These characters may stand in a number that has a space in it. -/
def InNumber (u : Unicode) (c : Char) : Prop :=
  u.isDigit c = true ∨ isUpper c = true ∨ c ∈ [' ', '-', '(', ')', '+']

theorem isDigit_of_isDigit (standard : u.Standard) (c : Char) (digit : c.isDigit = true) :
    u.isDigit c = true := by
  have below : c.toNat ≤ 57 := by
    simp only [Char.isDigit, Bool.and_eq_true, decide_eq_true_eq] at digit
    exact digit.2
  rw [isDigit_of_ascii standard c (by omega), ascii_isDigit, digit]

theorem inNumber_of_isUpperOrDigit (standard : u.Standard) (c : Char) (accepted : isUpperOrDigit c = true) :
    InNumber u c := by
  rcases (Bool.or_eq_true _ _).mp accepted with upper | digit
  · exact Or.inr (Or.inl upper)
  · exact Or.inl (isDigit_of_isDigit standard c digit)

/-- A pattern that reads spaces reads characters of numbers only. -/
theorem only_of_mem (standard : u.Standard) (r : Regex) (inside : r ∈ patterns u) :
    (r.Only fun c => c ≠ ' ') ∨ r.Only (InNumber u) := by
  have digit : ∀ c, u.isDigit c = true → InNumber u c := fun c => Or.inl
  have upper : ∀ c, isUpper c = true → InNumber u c := fun c accepted => Or.inr (Or.inl accepted)
  have mark : ∀ c ∈ [' ', '-', '(', ')', '+'], InNumber u c := fun c inside => Or.inr (Or.inr inside)
  have either := inNumber_of_isUpperOrDigit standard
  have space := (accepts_ne_iff u.isDigit ' ').mpr (isDigit_eq_false standard ' ' (by decide) (by decide))
  simp only [patterns, List.mem_cons, List.not_mem_nil, or_false] at inside
  rcases inside with rfl | rfl | rfl | rfl | rfl | rfl | rfl
  · exact Or.inl (email_only standard)
  · exact Or.inl secret_only
  case inr.inr.inr.inr.inl | inr.inr.inr.inr.inr.inr =>
    left
    simp [ssn, ipv4, seqs, Only, Unicode.boundary, Unicode.digit, between, exactly, only_chars,
      eq_true space]
  all_goals
    right
    simp [card, iban, phone, seqs, Only, Unicode.boundary, Unicode.digit, between, exactly,
      Regex.optional, oneOfChars, only_chars, eq_true digit, eq_true upper, eq_true either, mark]

theorem card_starts : (card u).Starts fun c => u.isDigit c = true := by
  simp [card, seqs, Starts, Only, Unicode.boundary, Unicode.digit]

theorem card_only : (card u).Only fun c => u.isDigit c = true ∨ isSeparator c = true := by
  simp [card, seqs, Only, Unicode.boundary, Unicode.digit, between, Regex.optional, oneOfChars,
    isSeparator]
  exact fun c digit => Or.inl digit

/-- What a pattern has found is a text that it accepts, with a boundary behind it. -/
structure Read (u : Unicode) (text : Str) (m : PiiMatch) (r : Regex) : Prop where
  pattern : r ∈ patterns u
  accepts : r.Accepts ((text.take m.stop).drop m.start)
  boundary : Cursor.AtBoundary u.isWord (Cursor.at text m.stop)

theorem read_of_find (d : Str × Regex × (Str → Bool)) (inside : d ∈ detectors u) (text : Str)
    (m : PiiMatch) (found : m ∈ find text d.1 d.2.1 d.2.2) : Read u text m d.2.1 := by
  have pattern := mem_patterns d inside
  obtain ⟨span, present, rfl⟩ := List.mem_map.mp (List.mem_of_mem_filter found)
  refine ⟨pattern, accepts_of_finditer d.2.1 (consumes_of_mem d.2.1 pattern) text span present, ?_⟩
  exact atBoundary_ends u.isWord d.2.1 (closes_of_mem d.2.1 pattern) _ _
    (ends_of_finditer d.2.1 text span present)

theorem read_of_candidates (text : Str) (m : PiiMatch) (found : m ∈ candidates u text) :
    ∃ r, Read u text m r := by
  obtain ⟨d, inside, found⟩ := List.mem_flatMap.mp found
  exact ⟨d.2.1, read_of_find d inside text m found⟩

/-! The characters of a finding are those of the text at its positions. -/

section Slice

variable (text : Str) (first last : Nat)

theorem mem_slice_iff (c : Char) : c ∈ (text.take last).drop first ↔
    ∃ position, first ≤ position ∧ position < last ∧ text[position]? = some c := by
  constructor
  · intro inside
    obtain ⟨i, here⟩ := List.mem_iff_getElem?.mp inside
    rw [List.getElem?_drop, List.getElem?_take] at here
    split at here
    · rename_i within
      exact ⟨first + i, Nat.le_add_right first i, within, here⟩
    · exact absurd here (by simp)
  · rintro ⟨position, start, stop, here⟩
    rw [List.mem_iff_getElem?]
    refine ⟨position - first, ?_⟩
    rw [List.getElem?_drop, List.getElem?_take_of_lt (by omega), Nat.add_sub_cancel' start, here]

theorem head?_slice (some : first < last) : ((text.take last).drop first).head? = text[first]? := by
  rw [List.head?_drop, List.getElem?_take_of_lt some]

theorem getLast?_slice (some : first < last) (within : last ≤ text.length) :
    ((text.take last).drop first).getLast? = text[last - 1]? := by
  rw [List.getLast?_eq_getElem?, List.length_drop, List.length_take, List.getElem?_drop,
    List.getElem?_take_of_lt (by omega)]
  congr 1
  omega

end Slice

/-! The number of a card stands between two spaces. -/

/-- This text has the number between others. -/
def surrounded (front s back : Str) : Str := front ++ " " ++ s ++ " " ++ back

/-- Each character is a digit or a separator, and the first one is a digit. -/
structure CardText (u : Unicode) (s : Str) : Prop where
  all : ∀ c ∈ s, u.isDigit c = true ∨ isSeparator c = true
  first : ∃ c, s.head? = some c ∧ u.isDigit c = true

theorem card_mem : card u ∈ patterns u := by simp [patterns]

/-- The pattern of a card matches the whole text, and its digits pass the checksum. -/
structure IsCard (u : Unicode) (s : Str) : Prop where
  matched : (0, s.length) ∈ (card u).finditer s
  valid : luhnValid u (s.filter fun c => c != ' ' && c != '-') = true

theorem isCard_of_scan (s : Str) (whole : scan u s = [⟨"card", 0, s.length, s⟩]) : IsCard u s := by
  have found : (⟨"card", 0, s.length, s⟩ : PiiMatch) ∈ candidates u s :=
    (chosen_scan s).subset _ (whole ▸ List.mem_singleton_self _)
  obtain ⟨d, inside, found⟩ := List.mem_flatMap.mp found
  obtain ⟨present, valid⟩ := List.mem_filter.mp found
  obtain ⟨span, matched, same⟩ := List.mem_map.mp present
  obtain ⟨kind, first, last, _⟩ := PiiMatch.mk.inj same
  obtain rfl : span = (0, s.length) := Prod.ext first last
  simp only [detectors, List.mem_cons, List.not_mem_nil, or_false] at inside
  rcases inside with rfl | rfl | rfl | rfl | rfl | rfl | rfl
  case inr.inr.inl => exact ⟨matched, valid⟩
  all_goals
    dsimp only at kind
    exact absurd kind (by decide)

theorem cardText_of_isCard (s : Str) (isCard : IsCard u s) : CardText u s := by
  have accepts := accepts_of_finditer (card u) (consumes_of_mem _ card_mem) s _ isCard.matched
  dsimp only at accepts
  rw [List.take_length, List.drop_zero] at accepts
  exact ⟨fun c => of_only _ card_only s accepts c, of_starts _ card_starts s accepts⟩

section Surrounded

variable {front s back : Str}

theorem surrounded_eq : surrounded front s back = front ++ ' ' :: (s ++ ' ' :: back) := by
  simp [surrounded]

theorem getElem?_before : (surrounded front s back)[front.length]? = some ' ' := by
  rw [surrounded_eq, List.getElem?_append_right le_rfl, Nat.sub_self]
  rfl

theorem getElem?_inside (i : Nat) (inside : i < s.length) :
    (surrounded front s back)[front.length + 1 + i]? = s[i]? := by
  rw [surrounded_eq, List.getElem?_append_right (by omega),
    show front.length + 1 + i - front.length = i + 1 by omega, List.getElem?_cons_succ,
    List.getElem?_append_left inside]

theorem getElem?_behind : (surrounded front s back)[front.length + 1 + s.length]? = some ' ' := by
  rw [surrounded_eq, List.getElem?_append_right (by omega),
    show front.length + 1 + s.length - front.length = s.length + 1 by omega, List.getElem?_cons_succ,
    List.getElem?_append_right le_rfl, Nat.sub_self]
  rfl

variable (front s back) in
/-- A position between the two spaces has a character of the number. -/
theorem mem_inside (position : Nat) (start : front.length + 1 ≤ position)
    (stop : position < front.length + 1 + s.length) :
    ∃ c ∈ s, (surrounded front s back)[position]? = some c := by
  obtain ⟨i, rfl⟩ := Nat.exists_eq_add_of_le start
  have inside : i < s.length := by omega
  exact ⟨s[i], List.getElem_mem inside, by rw [getElem?_inside i inside, List.getElem?_eq_getElem inside]⟩

/-- An address does not start inside the number. -/
theorem no_email_inside (standard : u.Standard) (text : CardText u s) (m : PiiMatch)
    (read : Read u (surrounded front s back) m (email u)) (start : front.length + 1 ≤ m.start)
    (stop : m.start < front.length + 1 + s.length) : False := by
  obtain ⟨c, inside, rfl⟩ := of_needs _ email_needs _ read.accepts
  obtain ⟨position, after, before, here⟩ := (mem_slice_iff _ _ _ _).mp inside
  by_cases within : position < front.length + 1 + s.length
  · obtain ⟨c, member, same⟩ := mem_inside front s back position (start.trans after) within
    obtain rfl : '@' = c := Option.some.inj (here.symm.trans same)
    rcases text.all '@' member with digit | separator
    · rw [isDigit_eq_false standard '@' (by decide) (by decide)] at digit
      exact absurd digit Bool.false_ne_true
    · exact absurd separator (by decide)
  · have space : ' ' ∈ ((surrounded front s back).take m.stop).drop m.start :=
      (mem_slice_iff _ _ _ _).mpr ⟨_, stop.le, by omega, getElem?_behind⟩
    exact of_only _ (email_only standard) _ read.accepts ' ' space rfl

/-- A secret does not reach into the number. -/
theorem no_secret_inside (standard : u.Standard) (text : CardText u s) (m : PiiMatch)
    (read : Read u (surrounded front s back) m (secretPrefixes u)) (start : m.start ≤ front.length + 1)
    (stop : front.length + 1 < m.stop) : False := by
  rcases Nat.lt_or_ge m.start (front.length + 1) with before | after
  · have space : ' ' ∈ ((surrounded front s back).take m.stop).drop m.start :=
      (mem_slice_iff _ _ _ _).mpr ⟨_, by omega, by omega, getElem?_before⟩
    exact of_only _ secret_only _ read.accepts ' ' space rfl
  · obtain ⟨c, head, letter⟩ := of_starts _ secret_starts _ read.accepts
    obtain ⟨d, first, digit⟩ := text.first
    rw [head?_slice _ _ _ (by omega), show m.start = front.length + 1 + 0 by omega, getElem?_inside 0
      (List.length_pos_of_mem (List.mem_of_mem_head? first)), ← List.head?_eq_getElem?, first] at head
    rw [Option.some.inj head, isDigit_of_letter standard c letter] at digit
    exact absurd digit Bool.false_ne_true

/-- No finding starts where another one ends inside the number. -/
theorem no_meeting_inside (standard : u.Standard) (words : DigitsAreWords u) (text : CardText u s)
    (a b : PiiMatch) (first : a ∈ candidates u (surrounded front s back))
    (second : b ∈ candidates u (surrounded front s back)) (start : a.start ≤ front.length + 1)
    (reaches : front.length + 1 < a.stop) (stop : a.stop < front.length + 1 + s.length)
    (meets : b.start = a.stop) : False := by
  obtain ⟨r, readA⟩ := read_of_candidates _ a first
  obtain ⟨r', readB⟩ := read_of_candidates _ b second
  have findingA := finding_of_candidates _ a first
  have findingB := finding_of_candidates _ b second
  obtain ⟨c, inside, before⟩ := mem_inside front s back (a.stop - 1) (by omega) (by omega)
  obtain ⟨d, inside', behind⟩ := mem_inside front s back a.stop (by omega) stop
  have boundary : u.isWord c ≠ u.isWord d := by
    have differ := readA.boundary
    simp only [Cursor.AtBoundary, Cursor.at, List.head?_drop, behind] at differ
    have last := getLast?_slice (surrounded front s back) 0 a.stop (by omega)
      findingA.within
    rw [List.drop_zero, before] at last
    simpa [last] using differ
  rcases starts_of_mem standard r' readB.pattern with rfl | starts
  · exact no_email_inside standard text b readB (by omega) (by omega)
  · -- The second finding starts with a digit, so that the first one ends with a separator.
    obtain ⟨e, head, free⟩ := of_starts r' starts _ readB.accepts
    rw [head?_slice _ _ _ findingB.nonempty, meets, behind] at head
    obtain rfl := Option.some.inj head
    have digit : u.isDigit d = true := by
      rcases text.all d inside' with digit | separator
      · exact digit
      · rw [free] at separator
        exact absurd separator Bool.false_ne_true
    rw [words d digit] at boundary
    have separator : isSeparator c = true := by
      rcases text.all c inside with digit | separator
      · exact absurd (words c digit) boundary
      · exact separator
    rcases finishes_of_mem standard r readA.pattern with rfl | finishes
    · exact no_secret_inside standard text a readA start reaches
    · obtain ⟨e, last, free⟩ := of_finishes r finishes _ readA.accepts
      rw [getLast?_slice _ _ _ findingA.nonempty findingA.within, before] at last
      obtain rfl := Option.some.inj last
      rw [free] at separator
      exact absurd separator Bool.false_ne_true

/-- Findings that cover the number are one finding. -/
theorem covered_iff_kept (standard : u.Standard) (words : DigitsAreWords u) (text : CardText u s) :
    (∀ position, front.length + 1 ≤ position → position < front.length + 1 + s.length →
      ∃ m ∈ scan u (surrounded front s back), m.start ≤ position ∧ position < m.stop) ↔
    ∃ m ∈ scan u (surrounded front s back), m.start ≤ front.length + 1 ∧
      front.length + 1 + s.length ≤ m.stop := by
  have chosen := chosen_scan (u := u) (surrounded front s back)
  have some : 0 < s.length := by
    obtain ⟨c, head, _⟩ := text.first
    exact List.length_pos_of_mem (List.mem_of_mem_head? head)
  constructor
  · intro covered
    obtain ⟨a, kept, start, reaches⟩ := covered (front.length + 1) le_rfl (by omega)
    refine ⟨a, kept, start, ?_⟩
    by_contra short
    obtain ⟨b, kept', start', reaches'⟩ := covered a.stop (by omega) (by omega)
    rcases chosen.disjoint a b kept kept' with rfl | after | before
    · omega
    · exact no_meeting_inside standard words text a b (chosen.subset a kept) (chosen.subset b kept') start
        reaches (by omega) (by omega)
    · omega
  · rintro ⟨m, kept, start, stop⟩ position after before
    exact ⟨m, kept, by omega, by omega⟩

end Surrounded

theorem digitsAreWords_ascii : DigitsAreWords Unicode.ascii := by
  intro c digit
  rw [ascii_isDigit] at digit
  simp [Unicode.isWord, Unicode.ascii, Char.isAlphanum, digit]

/-- The text in front ends with no character of a number, and the text behind starts with no digit. -/
structure Alone (u : Unicode) (front back : Str) : Prop where
  front : ∀ c ∈ front.getLast?, ¬InNumber u c
  back : ∀ c ∈ back.head?, u.isDigit c = false

section Surrounded

variable {front s back : Str}

/-- No match that starts in front of the number reaches into it. -/
theorem stop_le_of_alone (standard : u.Standard) (alone : Alone u front back) (r : Regex)
    (inside : r ∈ patterns u) (first last : Nat) (before : first ≤ front.length)
    (accepts : r.Accepts (((surrounded front s back).take last).drop first)) : last ≤ front.length + 1 := by
  by_contra beyond
  have space : ' ' ∈ ((surrounded front s back).take last).drop first :=
    (mem_slice_iff _ _ _ _).mpr ⟨front.length, before, by omega, getElem?_before⟩
  rcases only_of_mem standard r inside with others | only
  · exact of_only r others _ accepts ' ' space rfl
  · rcases before.lt_or_eq with earlier | rfl
    · obtain ⟨c, last⟩ : ∃ c, front.getLast? = some c :=
        ⟨_, List.getLast?_eq_some_getLast (List.ne_nil_of_length_pos (by omega))⟩
      apply alone.front c last
      apply of_only r only _ accepts c
      refine (mem_slice_iff _ _ _ _).mpr ⟨front.length - 1, by omega, by omega, ?_⟩
      rw [surrounded_eq, List.getElem?_append_left (by omega), ← List.getLast?_eq_getElem?, last]
    · rcases starts_of_mem standard r inside with rfl | starts
      · exact of_only _ (email_only standard) _ accepts ' ' space rfl
      · obtain ⟨c, head, free⟩ := of_starts r starts _ accepts
        rw [head?_slice _ _ _ (by omega), getElem?_before] at head
        rw [← Option.some.inj head] at free
        exact absurd free (by decide)

/-- These are the digits of a card behind the first one. -/
def separated (u : Unicode) : Regex := seqs [Regex.optional (oneOfChars " -"), u.digit]

theorem related_separated (standard : u.Standard) (opened : ∀ c ∈ back.head?, u.isDigit c = false)
    (c d : Cursor) (related : Extended ' ' back c d) :
    List.Forall₂ (Extended ' ' back) ((separated u).ends c) ((separated u).ends d) := by
  have space : u.isDigit ' ' = false := isDigit_eq_false standard ' ' (by decide) (by decide)
  have digits := related_ends (extended_similar ' ' back) (seqs [u.digit]) ⟨space, trivial⟩
  have split (c : Cursor) : (separated u).ends c =
      ((oneOfChars " -").ends c).flatMap (seqs [u.digit]).ends ++ (seqs [u.digit]).ends c := by
    rw [separated, seqs, List.foldr_cons, ends, ends_optional, List.flatMap_append, List.flatMap_singleton]
    rfl
  rw [split, split]
  apply List.rel_append _ (digits c d related)
  obtain ⟨before, after⟩ := c
  obtain ⟨before', after'⟩ := d
  obtain ⟨same, longer⟩ := related
  dsimp only at same longer
  subst same longer
  cases after with
  | nil =>
      -- The space behind the number is followed by no digit.
      have none : (seqs [u.digit]).ends ⟨some ' ', back⟩ = [] := by
        cases back with
        | nil => rfl
        | cons e back => simp [seqs, ends, Unicode.digit, opened e rfl]
      simp [oneOfChars, ends, none]
  | cons e after =>
      dsimp only [oneOfChars, ends, List.cons_append]
      split
      · exact related_flatMap (List.Forall₂.cons ⟨rfl, rfl⟩ List.Forall₂.nil) digits
      · exact List.Forall₂.nil

/-- A digit and a boundary in front of it are the start of a card. -/
theorem card_ends (words : DigitsAreWords u) (before : Option Char) (outside : before.any u.isWord = false)
    (c : Char) (rest : Str) (digit : u.isDigit c = true) : (card u).ends ⟨before, c :: rest⟩ =
      (seqs [between 11 18 (separated u), u.boundary]).ends ⟨some c, rest⟩ := by
  simp [card, separated, seqs, ends, Unicode.boundary, Unicode.digit, outside, words c digit, digit]

/-- The pattern of a card reads the same number whether it is alone or stands between spaces. -/
theorem matchLength?_card (standard : u.Standard) (words : DigitsAreWords u)
    (opened : ∀ c ∈ back.head?, u.isDigit c = false) (text : CardText u s) :
    (card u).matchLength? (some ' ') (s ++ ' ' :: back) = (card u).matchLength? none s := by
  obtain ⟨c, head, digit⟩ := text.first
  obtain ⟨rest, rfl⟩ : ∃ rest, s = c :: rest := List.head?_eq_some_iff.mp head
  have space : u.isWord ' ' = false := isWord_of_ascii standard ' ' (by decide)
  have related := related_flatMap
    (related_repeats (related_separated standard opened) false 7 11 ⟨some c, rest⟩
      ⟨some c, rest ++ ' ' :: back⟩ ⟨rfl, rfl⟩)
    (related_ends (extended_similar ' ' back) (seqs [u.boundary]) ⟨space, trivial⟩)
  rw [matchLength?, matchLength?, List.cons_append, card_ends words _ (by simp [space]) c _ digit,
    card_ends words _ rfl c _ digit]
  exact length_extended related (c :: rest)

theorem mem_candidates (d : Str × Regex × (Str → Bool)) (inside : d ∈ detectors u) (text : Str)
    (span : Nat × Nat) (matched : span ∈ d.2.1.finditer text)
    (valid : d.2.2 ((text.take span.2).drop span.1) = true) :
    ⟨d.1, span.1, span.2, (text.take span.2).drop span.1⟩ ∈ candidates u text :=
  List.mem_flatMap.mpr
    ⟨d, inside, List.mem_filter.mpr ⟨List.mem_map.mpr ⟨span, matched, rfl⟩, valid⟩⟩

/-- A number that is a card when it stands alone is found between spaces. -/
theorem mem_candidates_of_alone (standard : u.Standard) (words : DigitsAreWords u) (isCard : IsCard u s)
    (alone : Alone u front back) : ⟨"card", front.length + 1, front.length + 1 + s.length, s⟩ ∈
      candidates u (surrounded front s back) := by
  have consumes := consumes_of_mem (card u) card_mem
  have split : surrounded front s back = (front ++ [' ']) ++ (s ++ ' ' :: back) := by simp [surrounded]
  have size : (front ++ [' ']).length = front.length + 1 := by simp
  have free (span : Nat × Nat) (found : span ∈ (card u).finditer (front ++ [' '] ++ (s ++ ' ' :: back)))
      (before : span.1 < (front ++ [' ']).length) : span.2 ≤ (front ++ [' ']).length := by
    rw [← split] at found
    rw [size] at before ⊢
    exact stop_le_of_alone standard alone (card u) card_mem span.1 span.2 (Nat.le_of_lt_succ before)
      (accepts_of_finditer (card u) consumes _ span found)
  have length : (card u).matchLength? (front ++ [' ']).getLast? (s ++ ' ' :: back) = some s.length := by
    rw [List.getLast?_concat, matchLength?_card standard words alone.back (cardText_of_isCard s isCard)]
    exact matchLength?_of_mem consumes s s.length isCard.matched
  have inside := mem_finditer consumes _ _ _ free length
  rw [← split, size] at inside
  have value :
      ((surrounded front s back).take (front.length + 1 + s.length)).drop (front.length + 1) = s := by
    rw [split, ← size, List.take_length_add_append, List.drop_left, List.take_left]
  have detector : ("card".toList, card u, fun raw => luhnValid u (raw.filter fun c => c != ' ' && c != '-')) ∈
      detectors u := by simp [detectors]
  have found := mem_candidates _ detector _ _ inside (by rw [value]; exact isCard.valid)
  rwa [value] at found

end Surrounded

/-- A card is covered between two texts when none of their numbers goes on to it. -/
theorem card_covered_of_alone (u : Unicode) (standard : u.Standard) (words : DigitsAreWords u) (s : Str)
    (whole : scan u s = [⟨"card", 0, s.length, s⟩]) (front back : Str) (alone : Alone u front back)
    (position : Nat) (after : front.length + 1 ≤ position) (before : position < front.length + 1 + s.length) :
    ∃ m ∈ scan u (surrounded front s back), m.start ≤ position ∧ position < m.stop := by
  have found := mem_candidates_of_alone standard words (isCard_of_scan s whole) alone
  obtain ⟨k, kept, ahead, overlaps⟩ := (chosen_scan (surrounded front s back)).ahead _ found
  obtain ⟨r, read⟩ := read_of_candidates _ k ((chosen_scan (surrounded front s back)).subset k kept)
  refine ⟨k, kept, ?_⟩
  unfold Sweep.Ahead at ahead
  dsimp only at ahead overlaps
  by_cases early : k.start ≤ front.length
  · have stop := stop_le_of_alone standard alone r read.pattern k.start k.stop early read.accepts
    rcases overlaps with rfl | overlaps
    · exact absurd early (Nat.not_succ_le_self _)
    · omega
  · omega

end Kortex.PiiDetector
