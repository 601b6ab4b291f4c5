import Kortex.Library.Text
import Mathlib.Data.List.Forall2
import Mathlib.Data.List.Infix
import Mathlib.Tactic

/-
This file models the backtracking matcher of Python's `re` module, and proves where a search for words finds
something.
-/

namespace Kortex

/-- A position in a text has the character before it and the text after it. -/
structure Cursor where
  before : Option Char
  after : Str

/-- These are the constructs that the patterns of the repository use. -/
inductive Regex where
  | empty
  | set (accepts : Char → Bool)
  | boundary (isWord : Char → Bool)
  | seq (first second : Regex)
  | alt (first second : Regex)
  /-- The body repeats at least `least` times, and without a limit when there is none. -/
  | many (body : Regex) (least : Nat) (most : Option Nat) (lazily : Bool)

namespace Regex

/-- The repetitions that are not required are tried longest first, or shortest first. -/
def upTo (step : Cursor → List Cursor) (lazily : Bool) : Nat → Cursor → List Cursor
  | 0, c => [c]
  | extra + 1, c =>
      if lazily then c :: (step c).flatMap (upTo step lazily extra)
      else (step c).flatMap (upTo step lazily extra) ++ [c]

def repeats (step : Cursor → List Cursor) (lazily : Bool) (extra : Nat) : Nat → Cursor → List Cursor
  | 0, c => upTo step lazily extra c
  | least + 1, c => (step c).flatMap (repeats step lazily extra least)

/-- These are the ends of the matches at a position, in the order of the backtracking.
The limit of an unbounded repetition is the length of the text, for a body that is never empty. -/
def ends : Regex → Cursor → List Cursor
  | empty, c => [c]
  | set accepts, c =>
      match c.after with
      | [] => []
      | d :: rest => if accepts d then [⟨some d, rest⟩] else []
  | boundary isWord, c => if c.before.any isWord != c.after.head?.any isWord then [c] else []
  | seq first second, c => (ends first c).flatMap (ends second)
  | alt first second, c => ends first c ++ ends second c
  | many body least most lazily, c =>
      repeats (ends body) lazily (most.getD c.after.length - least) least c

/-- The search looks for a match at every position from the given one on. -/
def searchFrom (r : Regex) : Option Char → Str → Bool
  | before, [] => !(r.ends ⟨before, []⟩).isEmpty
  | before, c :: rest => !(r.ends ⟨before, c :: rest⟩).isEmpty || searchFrom r (some c) rest

/-- This is `pattern.search(text) is not None`. -/
def search (r : Regex) (text : Str) : Bool := r.searchFrom none text

/-- This is `pattern.match(text)`, as the length of the match. -/
def matchLength? (r : Regex) (before : Option Char) (text : Str) : Option Nat :=
  (r.ends ⟨before, text⟩).head?.map fun c => text.length - c.after.length

/-- The scan skips the rest of a match before it looks for the next one. -/
def finditerFrom (r : Regex) : Nat → Nat → Option Char → Str → List (Nat × Nat)
  | _, _, _, [] => []
  | position, skip + 1, _, c :: rest => finditerFrom r (position + 1) skip (some c) rest
  | position, 0, before, c :: rest =>
      match r.matchLength? before (c :: rest) with
      | none => finditerFrom r (position + 1) 0 (some c) rest
      | some length => (position, position + length) ::
          finditerFrom r (position + 1) (length - 1) (some c) rest

/-- This is `pattern.finditer(text)` as spans, for a pattern that never matches the empty text. -/
def finditer (r : Regex) (text : Str) : List (Nat × Nat) := r.finditerFrom 0 0 none text

def seqs (parts : List Regex) : Regex := parts.foldr seq empty

/-- A group of alternatives has at least one. -/
def alts : List Regex → Regex
  | [] => set fun _ => false
  | [r] => r
  | r :: rest => alt r (alts rest)

def chars (s : Str) : Regex := seqs (s.map fun c => set (· == c))

def optional (r : Regex) : Regex := many r 0 (some 1) false

/-- With `re.IGNORECASE` a letter also stands for its other case and for the four letters outside
ASCII that fold to `i`, `s` and `k`. -/
def ignoresCase (c d : Char) : Bool :=
  Str.asciiLower c == Str.asciiLower d ||
    (Str.asciiLower c == 'i' && (d.toNat == 0x130 || d.toNat == 0x131)) ||
    (Str.asciiLower c == 's' && d.toNat == 0x17f) || (Str.asciiLower c == 'k' && d.toNat == 0x212a)

/-- This is a literal with `re.IGNORECASE`. -/
def word (s : Str) : Regex := seqs (s.map fun c => set (ignoresCase c))

end Regex

/-- These are the tables of Unicode that the patterns read. -/
structure Unicode where
  isAlnum : Char → Bool
  /-- This is the value of a decimal digit in any script. -/
  decimal : Char → Option Nat

namespace Unicode

variable (u : Unicode)

/-- This is `\w`. -/
def isWord (c : Char) : Bool := u.isAlnum c || c == '_'

/-- This is `\d`. -/
def isDigit (c : Char) : Bool := (u.decimal c).isSome

/-- This is `\b`. -/
def boundary : Regex := .boundary u.isWord

def digit : Regex := .set u.isDigit

end Unicode

/-- These are the entries of the tables for ASCII. -/
def Unicode.ascii : Unicode where
  isAlnum c := c.isAlphanum
  decimal c := if c.isDigit then some (c.toNat - '0'.toNat) else none

example : (Regex.many (.set Char.isDigit) 2 (some 3) false).finditer "a1234b56".toList =
    [(1, 4), (6, 8)] := by decide

end Kortex

namespace Kortex.Regex

/-- The text spells the word, in any case. -/
def Spells (word text : Str) : Prop := List.Forall₂ (fun c d => ignoresCase c d = true) word text

theorem searchFrom_iff (r : Regex) (before : Option Char) (text : Str) :
    r.searchFrom before text = true ↔
      ∃ front rest, text = front ++ rest ∧ r.ends ⟨front.getLast?.or before, rest⟩ ≠ [] := by
  induction text generalizing before with
  | nil =>
      simp only [searchFrom, Bool.not_eq_true', List.isEmpty_eq_false_iff]
      constructor
      · exact fun found => ⟨[], [], rfl, found⟩
      · rintro ⟨front, rest, split, found⟩
        obtain ⟨rfl, rfl⟩ := List.nil_eq_append_iff.mp split
        exact found
  | cons c text ih =>
      have shifted (front : Str) :
          (c :: front).getLast?.or before = front.getLast?.or (some c) := by
        cases front <;> simp [List.getLast?_cons]
      simp only [searchFrom, Bool.or_eq_true, Bool.not_eq_true', List.isEmpty_eq_false_iff, ih]
      constructor
      · rintro (found | ⟨front, rest, rfl, found⟩)
        · exact ⟨[], c :: text, rfl, found⟩
        · exact ⟨c :: front, rest, rfl, shifted front ▸ found⟩
      · rintro ⟨front, rest, split, found⟩
        cases front with
        | nil =>
            rw [List.nil_append] at split
            exact Or.inl (split ▸ found)
        | cons d front =>
            obtain ⟨rfl, rfl⟩ := List.cons.inj split
            exact Or.inr ⟨front, rest, rfl, shifted front ▸ found⟩

theorem ends_word_iff (word : Str) (cursor : Cursor) :
    (Regex.word word).ends cursor ≠ [] ↔
      ∃ text rest, cursor.after = text ++ rest ∧ Spells word text := by
  induction word generalizing cursor with
  | nil => exact ⟨fun _ => ⟨[], _, rfl, .nil⟩, fun _ => List.cons_ne_nil _ _⟩
  | cons c word ih =>
      obtain ⟨before, after⟩ := cursor
      change (seq (set (ignoresCase c)) (Regex.word word)).ends ⟨before, after⟩ ≠ [] ↔ _
      cases after with
      | nil =>
          simp only [ends, List.flatMap_nil, ne_eq, not_true_eq_false, false_iff]
          rintro ⟨text, rest, split, spells⟩
          obtain ⟨rfl, rfl⟩ := List.nil_eq_append_iff.mp split
          cases spells
      | cons d after =>
          by_cases same : ignoresCase c d = true
          · simp only [ends, same, if_true, List.flatMap_cons, List.flatMap_nil, List.append_nil, ih]
            constructor
            · rintro ⟨text, rest, rfl, spells⟩
              exact ⟨d :: text, rest, rfl, .cons same spells⟩
            · rintro ⟨text, rest, split, spells⟩
              cases spells with
              | cons _ spells => exact ⟨_, rest, (List.cons.inj split).2, spells⟩
          · simp only [ends, same, Bool.false_eq_true, if_false, List.flatMap_nil, ne_eq,
              not_true_eq_false, false_iff]
            rintro ⟨text, rest, split, spells⟩
            cases spells with
            | cons equal _ => exact same ((List.cons.inj split).1 ▸ equal)

/-- A search for a word finds it where the text has it as a part. -/
theorem search_word_iff (word text : Str) :
    (Regex.word word).search text = true ↔ ∃ part, Spells word part ∧ part <:+: text := by
  simp only [search, searchFrom_iff, ends_word_iff]
  constructor
  · rintro ⟨front, _, rfl, part, rest, rfl, spells⟩
    exact ⟨part, spells, front, rest, by simp⟩
  · rintro ⟨part, spells, front, rest, rfl⟩
    exact ⟨front, part ++ rest, by simp, part, rest, rfl, spells⟩

theorem search_alt (first second : Regex) (text : Str) :
    (alt first second).search text = (first.search text || second.search text) := by
  rw [Bool.eq_iff_iff, Bool.or_eq_true]
  simp only [search, searchFrom_iff, ends, ne_eq, List.append_eq_nil_iff, not_and_or]
  constructor
  · rintro ⟨front, rest, split, found | found⟩
    · exact Or.inl ⟨front, rest, split, found⟩
    · exact Or.inr ⟨front, rest, split, found⟩
  · rintro (⟨front, rest, split, found⟩ | ⟨front, rest, split, found⟩)
    · exact ⟨front, rest, split, Or.inl found⟩
    · exact ⟨front, rest, split, Or.inr found⟩

end Kortex.Regex
