import Kortex.Library.RegexSplit

/-
This file is about the texts that a pattern can match, and about the characters at their ends.
-/

namespace Kortex.Regex

/-- The pattern can match this text, in some surroundings. -/
def Accepts : Regex → Str → Prop
  | empty, text => text = []
  | set accepts, text => ∃ c, accepts c = true ∧ text = [c]
  | boundary _, text => text = []
  | seq first second, text => ∃ front rest, Accepts first front ∧ Accepts second rest ∧ text = front ++ rest
  | alt first second, text => Accepts first text ∨ Accepts second text
  | many body least _ _, text => ∃ parts : List Str, least ≤ parts.length ∧
      (∀ part ∈ parts, Accepts body part) ∧ text = parts.flatten

/-- Between the two positions is this text. -/
structure Moves (c : Cursor) (text : Str) (d : Cursor) : Prop where
  after : c.after = text ++ d.after
  before : d.before = text.getLast?.or c.before

theorem Moves.nil (c : Cursor) : Moves c [] c := ⟨rfl, rfl⟩

theorem Moves.append {c d e : Cursor} {front rest : Str} (first : Moves c front d)
    (second : Moves d rest e) : Moves c (front ++ rest) e where
  after := by rw [first.after, second.after, List.append_assoc]
  before := by
    rw [second.before, first.before, List.getLast?_append]
    cases rest.getLast? <;> rfl

variable {step : Cursor → List Cursor} {P : Str → Prop}

theorem moves_upTo (lazily : Bool) (moves : ∀ c, ∀ d ∈ step c, ∃ text, P text ∧ Moves c text d)
    (extra : Nat) (c d : Cursor) (inside : d ∈ upTo step lazily extra c) :
    ∃ parts : List Str, (∀ part ∈ parts, P part) ∧ Moves c parts.flatten d := by
  induction extra generalizing c with
  | zero =>
      rw [List.mem_singleton.mp inside]
      exact ⟨[], by simp, Moves.nil c⟩
  | succ extra ih =>
      have own : d = c ∨ ∃ e ∈ step c, d ∈ upTo step lazily extra e := by
        rw [upTo] at inside
        split at inside
        · simpa using inside
        · simpa [or_comm] using inside
      rcases own with rfl | ⟨e, first, later⟩
      · exact ⟨[], by simp, Moves.nil d⟩
      · obtain ⟨text, accepted, start⟩ := moves c e first
        obtain ⟨parts, all, rest⟩ := ih e later
        exact ⟨text :: parts, List.forall_mem_cons.mpr ⟨accepted, all⟩, start.append rest⟩

theorem moves_repeats (lazily : Bool) (extra : Nat)
    (moves : ∀ c, ∀ d ∈ step c, ∃ text, P text ∧ Moves c text d) (least : Nat) (c d : Cursor)
    (inside : d ∈ repeats step lazily extra least c) :
    ∃ parts : List Str, least ≤ parts.length ∧ (∀ part ∈ parts, P part) ∧ Moves c parts.flatten d := by
  induction least generalizing c with
  | zero =>
      obtain ⟨parts, all, rest⟩ := moves_upTo lazily moves extra c d inside
      exact ⟨parts, Nat.zero_le _, all, rest⟩
  | succ least ih =>
      obtain ⟨e, first, later⟩ := List.mem_flatMap.mp inside
      obtain ⟨text, accepted, start⟩ := moves c e first
      obtain ⟨parts, enough, all, rest⟩ := ih e later
      exact ⟨text :: parts, Nat.succ_le_succ enough, List.forall_mem_cons.mpr ⟨accepted, all⟩,
        start.append rest⟩

/-- What lies before the end of a match is a text that the pattern accepts. -/
theorem accepts_ends (r : Regex) (c d : Cursor) (inside : d ∈ r.ends c) :
    ∃ text, r.Accepts text ∧ Moves c text d := by
  induction r generalizing c d with
  | empty =>
      rw [List.mem_singleton.mp inside]
      exact ⟨[], rfl, Moves.nil c⟩
  | set accepts =>
      rw [ends] at inside
      split at inside
      · exact absurd inside List.not_mem_nil
      · rename_i e rest after
        split at inside
        · rename_i accepted
          rw [List.mem_singleton.mp inside]
          exact ⟨[e], ⟨e, accepted, rfl⟩, after, rfl⟩
        · exact absurd inside List.not_mem_nil
  | boundary isWord =>
      rw [ends] at inside
      split at inside
      · rw [List.mem_singleton.mp inside]
        exact ⟨[], rfl, Moves.nil c⟩
      · exact absurd inside List.not_mem_nil
  | seq first second ihFirst ihSecond =>
      obtain ⟨e, middle, final⟩ := List.mem_flatMap.mp inside
      obtain ⟨front, accepted, start⟩ := ihFirst c e middle
      obtain ⟨rest, accepted', finish⟩ := ihSecond e d final
      exact ⟨front ++ rest, ⟨front, rest, accepted, accepted', rfl⟩, start.append finish⟩
  | alt first second ihFirst ihSecond =>
      rcases List.mem_append.mp inside with left | right
      · obtain ⟨text, accepted, moves⟩ := ihFirst c d left
        exact ⟨text, Or.inl accepted, moves⟩
      · obtain ⟨text, accepted, moves⟩ := ihSecond c d right
        exact ⟨text, Or.inr accepted, moves⟩
  | many body least most lazily ih =>
      obtain ⟨parts, enough, all, moves⟩ := moves_repeats lazily _ ih least c d inside
      exact ⟨parts.flatten, ⟨parts, enough, all, rfl⟩, moves⟩

/-! These are properties of all texts that a pattern accepts. -/

/-- The pattern reads characters of a kind only. -/
def Only (P : Char → Prop) : Regex → Prop
  | empty => True
  | set accepts => ∀ c, accepts c = true → P c
  | boundary _ => True
  | seq first second => Only P first ∧ Only P second
  | alt first second => Only P first ∧ Only P second
  | many body _ _ _ => Only P body

/-- The first character that the pattern reads is of a kind. -/
def Starts (P : Char → Prop) : Regex → Prop
  | empty => False
  | set accepts => ∀ c, accepts c = true → P c
  | boundary _ => False
  | seq first second => Starts P first ∨ (Only P first ∧ Starts P second)
  | alt first second => Starts P first ∧ Starts P second
  | many body least _ _ => 0 < least ∧ Starts P body

/-- The last character that the pattern reads is of a kind. -/
def Finishes (P : Char → Prop) : Regex → Prop
  | empty => False
  | set accepts => ∀ c, accepts c = true → P c
  | boundary _ => False
  | seq first second => Finishes P second ∨ (Only P second ∧ Finishes P first)
  | alt first second => Finishes P first ∧ Finishes P second
  | many body least _ _ => 0 < least ∧ Finishes P body

variable {Q : Char → Prop}

theorem only_chars (s : Str) : (chars s).Only Q ↔ ∀ c ∈ s, Q c := by
  induction s with
  | nil => simp [chars, seqs, Only]
  | cons c s ih =>
      simp only [chars, seqs, List.map_cons, List.foldr_cons, Only] at ih ⊢
      rw [ih]
      simp

theorem starts_chars (s : Str) : (chars s).Starts Q ↔ ∃ c ∈ s.head?, Q c := by
  cases s with
  | nil => simp [chars, seqs, Starts]
  | cons c s =>
      simp only [chars, seqs, List.map_cons, List.foldr_cons, Starts, Only, beq_iff_eq, forall_eq,
        List.head?_cons, Option.mem_some_iff, exists_eq_left']
      exact or_iff_left_of_imp And.left

/-- A set of characters leaves one out exactly when it does not accept it. -/
theorem accepts_ne_iff (accepts : Char → Bool) (left : Char) :
    (∀ c, accepts c = true → c ≠ left) ↔ accepts left = false := by
  constructor
  · intro others
    cases own : accepts left with
    | false => rfl
    | true => exact absurd rfl (others left own)
  · rintro rejects c own rfl
    exact absurd own (by rw [rejects]; exact Bool.false_ne_true)

theorem of_only (r : Regex) (only : r.Only Q) (text : Str) (accepted : r.Accepts text) (c : Char)
    (inside : c ∈ text) : Q c := by
  induction r generalizing text with
  | empty | boundary =>
      rw [show text = [] from accepted] at inside
      exact absurd inside List.not_mem_nil
  | set accepts =>
      obtain ⟨d, accepted, rfl⟩ := accepted
      rw [List.mem_singleton.mp inside]
      exact only d accepted
  | seq first second ihFirst ihSecond =>
      obtain ⟨front, rest, accepted, accepted', rfl⟩ := accepted
      rcases List.mem_append.mp inside with left | right
      · exact ihFirst only.1 front accepted left
      · exact ihSecond only.2 rest accepted' right
  | alt first second ihFirst ihSecond =>
      rcases accepted with left | right
      · exact ihFirst only.1 text left inside
      · exact ihSecond only.2 text right inside
  | many body least most lazily ih =>
      obtain ⟨parts, _, all, rfl⟩ := accepted
      obtain ⟨part, member, inside⟩ := List.mem_flatten.mp inside
      exact ih only part (all part member) inside

theorem of_needs (r : Regex) (needs : r.Needs Q) (text : Str) (accepted : r.Accepts text) :
    ∃ c ∈ text, Q c := by
  induction r generalizing text with
  | empty | boundary => exact False.elim needs
  | set accepts =>
      obtain ⟨c, accepted, rfl⟩ := accepted
      exact ⟨c, List.mem_singleton_self c, needs c accepted⟩
  | seq first second ihFirst ihSecond =>
      obtain ⟨front, rest, accepted, accepted', rfl⟩ := accepted
      rcases needs with own | own
      · obtain ⟨c, inside, holds⟩ := ihFirst own front accepted
        exact ⟨c, List.mem_append_left rest inside, holds⟩
      · obtain ⟨c, inside, holds⟩ := ihSecond own rest accepted'
        exact ⟨c, List.mem_append_right front inside, holds⟩
  | alt first second ihFirst ihSecond =>
      rcases accepted with left | right
      · exact ihFirst needs.1 text left
      · exact ihSecond needs.2 text right
  | many body least most lazily ih =>
      obtain ⟨parts, enough, all, rfl⟩ := accepted
      obtain ⟨part, member⟩ := List.exists_mem_of_length_pos (needs.1.trans_le enough)
      obtain ⟨c, inside, holds⟩ := ih needs.2 part (all part member)
      exact ⟨c, List.mem_flatten.mpr ⟨part, member, inside⟩, holds⟩

theorem of_starts (r : Regex) (starts : r.Starts Q) (text : Str) (accepted : r.Accepts text) :
    ∃ c, text.head? = some c ∧ Q c := by
  induction r generalizing text with
  | empty | boundary => exact False.elim starts
  | set accepts =>
      obtain ⟨c, accepted, rfl⟩ := accepted
      exact ⟨c, rfl, starts c accepted⟩
  | seq first second ihFirst ihSecond =>
      obtain ⟨front, rest, accepted, accepted', rfl⟩ := accepted
      rcases starts with own | ⟨only, own⟩
      · obtain ⟨c, head, holds⟩ := ihFirst own front accepted
        exact ⟨c, by rw [List.head?_append, head, Option.some_or], holds⟩
      · cases front with
        | nil => exact ihSecond own rest accepted'
        | cons c front => exact ⟨c, rfl, of_only first only _ accepted c List.mem_cons_self⟩
  | alt first second ihFirst ihSecond =>
      rcases accepted with left | right
      · exact ihFirst starts.1 text left
      · exact ihSecond starts.2 text right
  | many body least most lazily ih =>
      obtain ⟨parts, enough, all, rfl⟩ := accepted
      cases parts with
      | nil => exact absurd enough (Nat.not_le.mpr starts.1)
      | cons part parts =>
          obtain ⟨c, head, holds⟩ := ih starts.2 part (all part List.mem_cons_self)
          exact ⟨c, by rw [List.flatten_cons, List.head?_append, head, Option.some_or], holds⟩

theorem of_finishes (r : Regex) (finishes : r.Finishes Q) (text : Str) (accepted : r.Accepts text) :
    ∃ c, text.getLast? = some c ∧ Q c := by
  induction r generalizing text with
  | empty | boundary => exact False.elim finishes
  | set accepts =>
      obtain ⟨c, accepted, rfl⟩ := accepted
      exact ⟨c, rfl, finishes c accepted⟩
  | seq first second ihFirst ihSecond =>
      obtain ⟨front, rest, accepted, accepted', rfl⟩ := accepted
      rcases finishes with own | ⟨only, own⟩
      · obtain ⟨c, last, holds⟩ := ihSecond own rest accepted'
        exact ⟨c, by rw [List.getLast?_append, last, Option.some_or], holds⟩
      · rcases List.eq_nil_or_concat rest with rfl | ⟨others, c, rfl⟩
        · rw [List.append_nil]
          exact ihFirst own front accepted
        · exact ⟨c, by simp, of_only second only _ accepted' c (by simp)⟩
  | alt first second ihFirst ihSecond =>
      rcases accepted with left | right
      · exact ihFirst finishes.1 text left
      · exact ihSecond finishes.2 text right
  | many body least most lazily ih =>
      obtain ⟨parts, enough, all, rfl⟩ := accepted
      rcases List.eq_nil_or_concat parts with rfl | ⟨others, part, rfl⟩
      · exact absurd enough (Nat.not_le.mpr finishes.1)
      · obtain ⟨c, last, holds⟩ := ih finishes.2 part (all part (by simp))
        refine ⟨c, ?_, holds⟩
        rw [List.concat_eq_append, List.flatten_append, List.getLast?_append]
        simp [last]

/-! A pattern may ask for a boundary at its end. -/

/-- The pattern ends with a boundary of words. -/
def Closes (isWord : Char → Bool) : Regex → Prop
  | empty => False
  | set _ => False
  | boundary word => word = isWord
  | seq first empty => Closes isWord first
  | seq _ second => Closes isWord second
  | alt first second => Closes isWord first ∧ Closes isWord second
  | many _ _ _ _ => False

/-- One side of the position is a character of a word, and the other one is not. -/
def Cursor.AtBoundary (isWord : Char → Bool) (c : Cursor) : Prop :=
  c.before.any isWord ≠ c.after.head?.any isWord

theorem atBoundary_ends (isWord : Char → Bool) (r : Regex) (closes : r.Closes isWord) (c d : Cursor)
    (inside : d ∈ r.ends c) : Cursor.AtBoundary isWord d := by
  induction r generalizing c d with
  | empty | set | many => exact False.elim closes
  | boundary word =>
      obtain rfl : word = isWord := closes
      rw [ends] at inside
      split at inside
      · rename_i differ
        rw [List.mem_singleton.mp inside]
        simpa [Cursor.AtBoundary] using differ
      · exact absurd inside List.not_mem_nil
  | seq first second ihFirst ihSecond =>
      obtain ⟨e, middle, final⟩ := List.mem_flatMap.mp inside
      cases second with
      | empty =>
          rw [List.mem_singleton.mp final]
          exact ihFirst closes c e middle
      | set | boundary | seq | alt | many => exact ihSecond closes e d final
  | alt first second ihFirst ihSecond =>
      rcases List.mem_append.mp inside with left | right
      · exact ihFirst closes.1 c d left
      · exact ihSecond closes.2 c d right

/-! The matches of a scan are what the pattern reads at their positions. -/

/-- This is the position in a text after so many characters. -/
def Cursor.at (text : Str) (position : Nat) : Cursor := ⟨(text.take position).getLast?, text.drop position⟩

theorem ends_of_finditerFrom (r : Regex) (front text : Str) (skip : Nat) (span : Nat × Nat)
    (inside : span ∈ r.finditerFrom front.length skip front.getLast? text) :
    Cursor.at (front ++ text) span.2 ∈ r.ends (Cursor.at (front ++ text) span.1) := by
  induction text generalizing front skip with
  | nil => exact absurd inside (by simp [finditerFrom])
  | cons c rest ih =>
      have next (skip : Nat) (later : span ∈ r.finditerFrom (front.length + 1) skip (some c) rest) :
          Cursor.at (front ++ c :: rest) span.2 ∈ r.ends (Cursor.at (front ++ c :: rest) span.1) := by
        have shifted := ih (front ++ [c]) skip (by simpa using later)
        rw [List.append_assoc, List.singleton_append] at shifted
        exact shifted
      cases skip with
      | succ skip => exact next skip (by simpa [finditerFrom] using inside)
      | zero =>
          rw [finditerFrom] at inside
          split at inside
          · exact next 0 inside
          · rename_i length found
            rcases List.mem_cons.mp inside with rfl | later
            · rw [matchLength?] at found
              obtain ⟨d, first, same⟩ := Option.map_eq_some_iff.mp found
              have member := List.mem_of_mem_head? first
              obtain ⟨word, accepted, moves⟩ := accepts_ends r _ d member
              have start : Cursor.at (front ++ c :: rest) front.length = ⟨front.getLast?, c :: rest⟩ := by
                simp [Cursor.at]
              have size : length = word.length := by
                have split := congrArg List.length moves.after
                rw [List.length_append] at split
                dsimp only at split
                omega
              have stop : Cursor.at (front ++ c :: rest) (front.length + length) = d := by
                have split : c :: rest = word ++ d.after := moves.after
                rw [Cursor.at, size, split, ← List.append_assoc, ← List.length_append,
                  List.take_left, List.drop_left, List.getLast?_append, ← moves.before]
              rw [start, stop]
              exact member
            · exact next (length - 1) later

/-- The pattern goes from the start of a match to its end. -/
theorem ends_of_finditer (r : Regex) (text : Str) (span : Nat × Nat) (inside : span ∈ r.finditer text) :
    Cursor.at text span.2 ∈ r.ends (Cursor.at text span.1) :=
  ends_of_finditerFrom r [] text 0 span inside

/-- The text of a match is one that the pattern accepts. -/
theorem accepts_of_finditer (r : Regex) (consumes : r.consumes = true) (text : Str) (span : Nat × Nat)
    (inside : span ∈ r.finditer text) : r.Accepts ((text.take span.2).drop span.1) := by
  obtain ⟨word, accepted, moves⟩ := accepts_ends r _ _ (ends_of_finditer r text span inside)
  have bounds := bounds_finditer consumes text span inside
  have split : text.drop span.1 = word ++ text.drop span.2 := moves.after
  have size := congrArg List.length split
  rw [List.length_append, List.length_drop, List.length_drop] at size
  have same : (text.take span.2).drop span.1 = word := by
    rw [List.drop_take, split]
    apply List.take_left'
    omega
  exact same ▸ accepted

/-- The scan finds a match of the pattern that none of the earlier ones reaches. -/
theorem mem_finditerFrom {r : Regex} (consumes : r.consumes = true) (position skip length : Nat)
    (before : Option Char) (front rest : Str) (within : skip ≤ front.length)
    (free : ∀ span ∈ r.finditerFrom position skip before (front ++ rest),
      span.1 < position + front.length → span.2 ≤ position + front.length)
    (found : r.matchLength? (front.getLast?.or before) rest = some length) :
    (position + front.length, position + front.length + length) ∈
      r.finditerFrom position skip before (front ++ rest) := by
  induction front generalizing position skip before with
  | nil =>
      obtain rfl : skip = 0 := Nat.le_zero.mp within
      cases rest with
      | nil => simp [matchLength?_nil consumes] at found
      | cons c rest =>
          have first : r.matchLength? before (c :: rest) = some length := found
          rw [List.nil_append, finditerFrom, first]
          exact List.mem_cons_self
  | cons c front ih =>
      have last : (c :: front).getLast?.or before = front.getLast?.or (some c) := by
        rw [List.getLast?_cons, Option.or_some]
        rfl
      rw [last] at found
      rw [List.length_cons] at within free ⊢
      rw [show position + (front.length + 1) = position + 1 + front.length by omega] at free ⊢
      rw [List.cons_append] at free ⊢
      cases skip with
      | succ skip =>
          rw [finditerFrom] at free ⊢
          exact ih (position + 1) skip (some c) (Nat.le_of_succ_le_succ within) free found
      | zero =>
          rw [finditerFrom] at free ⊢
          split at free
          · exact ih (position + 1) 0 (some c) (Nat.zero_le _) free found
          · rename_i earlier _
            rw [List.forall_mem_cons] at free
            have short := free.1 (by dsimp only; omega)
            exact List.mem_cons_of_mem _
              (ih (position + 1) (earlier - 1) (some c) (by dsimp only at short; omega) free.2 found)

theorem mem_finditer {r : Regex} (consumes : r.consumes = true) (front rest : Str) (length : Nat)
    (free : ∀ span ∈ r.finditer (front ++ rest), span.1 < front.length → span.2 ≤ front.length)
    (found : r.matchLength? front.getLast? rest = some length) :
    (front.length, front.length + length) ∈ r.finditer (front ++ rest) := by
  have inside := mem_finditerFrom consumes 0 0 length none front rest (Nat.zero_le _)
    (by rwa [Nat.zero_add]) (by rwa [Option.or_none])
  rwa [Nat.zero_add] at inside

/-- A match at the start of the text is what the pattern reads there. -/
theorem matchLength?_of_mem {r : Regex} (consumes : r.consumes = true) (text : Str) (last : Nat)
    (inside : (0, last) ∈ r.finditer text) : r.matchLength? none text = some last := by
  cases text with
  | nil => exact absurd inside List.not_mem_nil
  | cons c rest =>
      rw [finditer, finditerFrom] at inside
      split at inside
      · have bounds := bounds_finditerFrom consumes 1 0 (some c) rest _ inside
        omega
      · rename_i length found
        rcases List.mem_cons.mp inside with same | later
        · rw [found, (Prod.mk.inj same).2, Nat.zero_add]
        · have bounds := bounds_finditerFrom consumes 1 (length - 1) (some c) rest _ later
          omega

theorem ends_optional (r : Regex) (c : Cursor) : (optional r).ends c = r.ends c ++ [c] := by
  rw [optional, ends, Option.getD_some, repeats, upTo, if_neg Bool.false_ne_true]
  congr 1
  exact List.flatMap_singleton' _

end Kortex.Regex
