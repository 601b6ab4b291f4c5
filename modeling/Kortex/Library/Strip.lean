import Kortex.Library.Split
import Kortex.Library.Text

/-
This file describes what `str.strip` and `str.join` do to the parts of a string.
-/

namespace Kortex.Str

/-- A string of whitespace only is one whose strip is empty. -/
theorem strip_eq_nil_iff (s : Str) : strip s = [] ↔ ∀ c ∈ s, isSpace c = true := by
  rw [strip, rstrip, List.rdropWhile_eq_nil_iff]
  constructor
  · intro none
    have left : lstrip s = [] := by
      by_contra filled
      have first : isSpace ((lstrip s).head filled) = false := List.head_dropWhile_not isSpace filled
      rw [none _ (List.head_mem filled)] at first
      exact absurd first (by simp)
    exact List.dropWhile_eq_nil_iff.mp left
  · intro blank c present
    exact blank c ((List.dropWhile_sublist _).subset present)

theorem strip_infix_self (s : Str) : strip s <:+: s :=
  (List.rdropWhile_prefix isSpace (lstrip s)).isInfix.trans (List.dropWhile_suffix isSpace).isInfix

theorem length_strip_le (s : Str) : (strip s).length ≤ s.length := (strip_infix_self s).length_le

/-- A stripped string does not start with whitespace. -/
theorem strip_head (s : Str) (c : Char) (first : (strip s).head? = some c) : isSpace c = false := by
  obtain ⟨spaces, whole⟩ : strip s <+: lstrip s := List.rdropWhile_prefix isSpace (lstrip s)
  have start : (lstrip s).head? = some c := by rw [← whole, List.head?_append, first, Option.some_or]
  have other := List.head?_dropWhile_not isSpace s
  rw [lstrip] at start
  rw [start] at other
  exact other

@[simp] theorem strip_strip (s : Str) : strip (strip s) = strip s :=
  strip_eq_self _ (fun c first => strip_head s c first) (fun c last => strip_last s c last)

/-- A part that has no whitespace at its ends stands between what is stripped. -/
theorem strip_around (before middle after : Str) (filled : middle ≠ [])
    (first : ∀ c ∈ middle.head?, isSpace c = false) (last : ∀ c ∈ middle.getLast?, isSpace c = false) :
    strip (before ++ middle ++ after) = lstrip before ++ middle ++ rstrip after := by
  have left : lstrip (before ++ middle ++ after) = lstrip before ++ middle ++ after := by
    have own : (middle ++ after).dropWhile isSpace = middle ++ after := by
      cases middle with
      | nil => exact absurd rfl filled
      | cons c rest => simp [first c rfl]
    rw [lstrip, lstrip, List.append_assoc, List.dropWhile_append, own, List.append_assoc]
    split
    · next none => rw [List.isEmpty_iff.mp none, List.nil_append]
    · rfl
  rw [strip, left, rstrip, rstrip, List.rdropWhile, List.reverse_append, List.dropWhile_append,
    List.rdropWhile]
  have own : (lstrip before ++ middle).reverse.dropWhile isSpace = (lstrip before ++ middle).reverse := by
    rw [List.reverse_append]
    rcases List.eq_nil_or_concat middle with none | ⟨front, c, rfl⟩
    · exact absurd none filled
    · simp [last c (by simp)]
  rw [own]
  split
  · next none => rw [List.isEmpty_iff.mp none]; simp
  · simp

theorem rstrip_append_blank (s blank : Str) (spaces : ∀ c ∈ blank, isSpace c = true) :
    rstrip (s ++ blank) = rstrip s := by
  have turned : ∀ c ∈ blank.reverse, isSpace c = true := by
    intro c inside
    exact spaces c (List.mem_reverse.mp inside)
  rw [rstrip, rstrip, List.rdropWhile, List.rdropWhile, List.reverse_append,
    List.dropWhile_append_of_pos turned]

theorem lstrip_append (s rest : Str) : lstrip (s ++ rest) =
    if lstrip s = [] then lstrip rest else lstrip s ++ rest := by
  rw [lstrip, lstrip, lstrip, List.dropWhile_append]
  simp only [List.isEmpty_iff]

/-- Whitespace at the end does not count. -/
theorem strip_append_blank (s blank : Str) (spaces : ∀ c ∈ blank, isSpace c = true) :
    strip (s ++ blank) = strip s := by
  rw [strip, strip, lstrip_append]
  split
  · next none =>
      rw [none, lstrip, List.dropWhile_eq_nil_iff.mpr spaces]
  · exact rstrip_append_blank (lstrip s) blank spaces

theorem strip_rstrip (s : Str) : strip (rstrip s) = strip s := by
  obtain ⟨blank, whole, spaces⟩ := rstrip_append_spaces s
  calc
    strip (rstrip s) = strip (rstrip s ++ blank) := (strip_append_blank _ blank spaces).symm
    _ = strip s := by rw [← whole]

theorem rstrip_cons (c : Char) (s : Str) : rstrip (c :: s) =
    if rstrip s = [] then rstrip [c] else c :: rstrip s := by
  rw [rstrip, rstrip, rstrip, List.rdropWhile, List.rdropWhile, List.rdropWhile, List.reverse_cons,
    List.dropWhile_append]
  simp only [List.isEmpty_iff, List.reverse_eq_nil_iff, List.reverse_cons, List.reverse_nil,
    List.nil_append]
  split
  · rfl
  · rw [List.reverse_append, List.reverse_cons, List.reverse_nil, List.nil_append, List.singleton_append]

theorem rstrip_eq_nil_iff (s : Str) : rstrip s = [] ↔ strip s = [] := by
  rw [strip_eq_nil_iff, rstrip, List.rdropWhile_eq_nil_iff]

/-- The strip of a part is a part of the strip. -/
theorem strip_infix (part s : Str) (inside : part <:+: s) : strip part <:+: strip s := by
  by_cases filled : strip part = []
  · rw [filled]
    exact List.nil_infix
  · obtain ⟨before, after, whole⟩ := (strip_infix_self part).trans inside
    rw [← whole, strip_around before (strip part) after filled (fun c => strip_head part c)
      (fun c => strip_last part c)]
    exact ⟨_, _, rfl⟩

theorem infix_join (separator : Char) (part : Str) (parts : List Str) (inside : part ∈ parts) :
    part <:+: join [separator] parts := by
  cases parts with
  | nil => exact absurd inside List.not_mem_nil
  | cons first rest =>
      rw [join, Split.intercalate_cons]
      rcases List.mem_cons.mp inside with rfl | later
      · exact ⟨[], _, rfl⟩
      · obtain ⟨front, back, rfl⟩ := List.append_of_mem later
        refine ⟨first ++ front.flatMap (fun part => separator :: part) ++ [separator],
          back.flatMap fun part => separator :: part, ?_⟩
        simp

end Kortex.Str
