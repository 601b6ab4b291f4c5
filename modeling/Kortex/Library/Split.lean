import Mathlib.Data.List.Infix
import Mathlib.Tactic

/-
This file gives facts about lists that are split at a separator and joined by it.
-/

namespace Kortex.Split

variable {A : Type} {separator : A}

/-- No part of a split list has the separator. -/
theorem separator_notMem [BEq A] [LawfulBEq A] (list part : List A)
    (inside : part ∈ list.splitOn separator) : separator ∉ part := by
  induction list generalizing part with
  | nil =>
      rw [List.splitOn_nil, List.mem_singleton] at inside
      rw [inside]
      exact List.not_mem_nil
  | cons a list ih =>
      rw [List.splitOn_cons_eq_if_modifyHead] at inside
      split at inside
      · rcases List.mem_cons.mp inside with rfl | later
        · exact List.not_mem_nil
        · exact ih part later
      · rename_i other
        obtain ⟨first, rest, parts⟩ := List.exists_cons_of_ne_nil (List.splitOn_ne_nil separator list)
        rw [parts, List.modifyHead_cons, List.mem_cons] at inside
        rcases inside with rfl | later
        · rw [List.mem_cons, not_or]
          refine ⟨fun same => other (by simp [same]), ih first ?_⟩
          rw [parts]
          exact List.mem_cons_self
        · apply ih part
          rw [parts]
          exact List.mem_cons_of_mem _ later

theorem intercalate_cons (first : List A) (parts : List (List A)) :
    [separator].intercalate (first :: parts) = first ++ parts.flatMap fun part => separator :: part := by
  induction parts generalizing first with
  | nil => simp
  | cons part rest ih =>
      rw [List.intercalate_cons_cons, ih, List.flatMap_cons, List.append_assoc, List.singleton_append,
        List.cons_append]

theorem mem_intercalate (a : A) (other : a ≠ separator) (parts : List (List A)) :
    a ∈ [separator].intercalate parts ↔ ∃ part ∈ parts, a ∈ part := by
  cases parts with
  | nil => simp
  | cons first parts => simp [intercalate_cons, other]

theorem intercalate_concat (front : List (List A)) (last : List A) (nonempty : front ≠ []) :
    [separator].intercalate (front ++ [last]) =
      [separator].intercalate front ++ separator :: last := by
  induction front with
  | nil => exact absurd rfl nonempty
  | cons part rest ih =>
      cases rest with
      | nil => simp
      | cons other rest =>
          have tail := ih (by simp)
          rw [List.cons_append, List.cons_append, List.intercalate_cons_cons,
            List.intercalate_cons_cons, ← List.cons_append, tail]
          simp

/-- A joined list splits as its parts do. -/
theorem splitOn_intercalate_flatMap [BEq A] [LawfulBEq A] (parts : List (List A)) (some : parts ≠ []) :
    ([separator].intercalate parts).splitOn separator =
      parts.flatMap fun part => part.splitOn separator := by
  induction parts with
  | nil => exact absurd rfl some
  | cons part rest ih =>
      cases rest with
      | nil => simp
      | cons other rest =>
          rw [List.intercalate_cons_cons, List.append_assoc, List.singleton_append,
            List.splitOn_append_cons_self, ih (by simp)]
          exact List.flatMap_cons.symm

theorem flatMap_splitOn_of_free [BEq A] [LawfulBEq A] (parts : List (List A))
    (free : ∀ part ∈ parts, separator ∉ part) :
    (parts.flatMap fun part => part.splitOn separator) = parts := by
  induction parts with
  | nil => rfl
  | cons part rest ih =>
      rw [List.forall_mem_cons] at free
      rw [List.flatMap_cons, List.splitOn_eq_singleton free.1, ih free.2, List.singleton_append]

/-- What stands before the first separator is in the first part. -/
theorem splitOn_free_append [BEq A] [LawfulBEq A] (front list : List A) (free : separator ∉ front) :
    (front ++ list).splitOn separator = (list.splitOn separator).modifyHead (front ++ ·) := by
  induction front with
  | nil =>
      rw [List.nil_append]
      cases list.splitOn separator <;> rfl
  | cons a front ih =>
      rw [List.mem_cons, not_or] at free
      have other : (a == separator) = false := beq_false_of_ne (Ne.symm free.1)
      rw [List.cons_append, List.splitOn_cons_eq_if_modifyHead, if_neg (by simp [other]), ih free.2]
      cases list.splitOn separator <;> rfl

/-- A list has one part more than it has separators. -/
theorem length_splitOn [BEq A] [LawfulBEq A] (list : List A) :
    (list.splitOn separator).length = list.count separator + 1 := by
  induction list with
  | nil => simp
  | cons a list ih =>
      rw [List.splitOn_cons_eq_if_modifyHead]
      split
      · rename_i same
        rw [List.length_cons, ih, beq_iff_eq.mp same, List.count_cons_self]
      · rename_i other
        rw [List.length_modifyHead, ih, List.count_cons_of_ne (by simpa using other)]

/-- A joined list ends as its last part does. -/
theorem getLast?_intercalate (parts : List (List A)) (last : List A) (final : parts.getLast? = some last)
    (nonempty : last ≠ []) : ([separator].intercalate parts).getLast? = last.getLast? := by
  rcases List.eq_nil_or_concat parts with rfl | ⟨front, part, rfl⟩
  · simp at final
  · rw [List.concat_eq_append] at final ⊢
    rw [List.getLast?_append, List.getLast?_singleton, Option.some_or, Option.some.injEq] at final
    subst final
    by_cases alone : front = []
    · simp [alone]
    · rw [intercalate_concat front part alone]
      cases part with
      | nil => exact absurd rfl nonempty
      | cons a rest => simp [List.getLast?_append, List.getLast?_cons]

theorem length_intercalate_cons (part : List A) (parts : List (List A)) :
    ([separator].intercalate parts).length ≤ ([separator].intercalate (part :: parts)).length := by
  cases parts with
  | nil => simp
  | cons other rest => simp only [List.intercalate_cons_cons, List.length_append]; omega

/-- A list that is joined from fewer parts is no longer. -/
theorem length_intercalate_le (parts all : List (List A)) (fewer : parts.Sublist all) :
    ([separator].intercalate parts).length ≤ ([separator].intercalate all).length := by
  induction fewer with
  | slnil => exact Nat.le_refl _
  | cons part _ ih => exact ih.trans (length_intercalate_cons part _)
  | cons_cons part fewer ih =>
      rename_i some' all'
      cases some' with
      | nil => cases all' <;> simp [List.intercalate_cons_cons]
      | cons first rest =>
          cases all' with
          | nil => exact absurd (List.sublist_nil.mp fewer) (by simp)
          | cons first' rest' =>
              simp only [List.intercalate_cons_cons, List.length_append] at ih ⊢
              omega

variable (separator) in
theorem length_intercalate (parts : List (List A)) (some : parts ≠ []) :
    ([separator].intercalate parts).length + 1 = (parts.map List.length).sum + parts.length := by
  induction parts with
  | nil => exact absurd rfl some
  | cons part rest ih =>
      cases rest with
      | nil => simp
      | cons next rest =>
          have later := ih (List.cons_ne_nil next rest)
          simp only [List.intercalate_cons_cons, List.length_append, List.map_cons, List.sum_cons,
            List.length_cons, List.length_nil] at later ⊢
          omega

variable (separator) in
/-- A new part makes the joined list longer. -/
theorem length_intercalate_insertIdx (parts : List (List A)) (some : parts ≠ []) (part : List A)
    (n : Nat) (inside : n ≤ parts.length) : ([separator].intercalate (parts.insertIdx n part)).length =
      ([separator].intercalate parts).length + part.length + 1 := by
  have before := length_intercalate separator parts some
  have same : (parts.insertIdx n part).Perm (part :: parts) := List.perm_insertIdx part parts inside
  have more : parts.insertIdx n part ≠ [] := by
    intro none
    have lengths := same.length_eq
    rw [none] at lengths
    exact absurd lengths (by simp)
  have after := length_intercalate separator (parts.insertIdx n part) more
  rw [(same.map List.length).sum_eq, same.length_eq] at after
  simp only [List.map_cons, List.sum_cons, List.length_cons] at after
  omega

/-- A word without the separator stands on one side of it. -/
theorem infix_append_separator (word : List A) (nonempty : word ≠ []) (free : separator ∉ word)
    (before after : List A) :
    word <:+: before ++ separator :: after ↔ word <:+: before ∨ word <:+: after := by
  have starts (front : List A) (filled : front ≠ []) (start : front <+: separator :: after) :
      separator ∈ front := by
    cases front with
    | nil => exact absurd rfl filled
    | cons a rest =>
        rw [List.cons_prefix_cons] at start
        rw [start.1]
        exact List.mem_cons_self
  rw [List.infix_append_iff_ne_nil, List.infix_cons_iff]
  constructor
  · rintro (inside | (start | inside) | ⟨front, rest, filled, filled', rfl, _, start⟩)
    · exact Or.inl inside
    · exact absurd (starts word nonempty start) free
    · exact Or.inr inside
    · exact absurd (List.mem_append_right _ (starts rest filled' start)) free
  · rintro (inside | inside)
    · exact Or.inl inside
    · exact Or.inr (Or.inl (Or.inr inside))

/-- A word without the separator occurs in a joined list exactly when it occurs in a part. -/
theorem infix_intercalate_iff (word : List A) (nonempty : word ≠ []) (free : separator ∉ word)
    (parts : List (List A)) :
    word <:+: [separator].intercalate parts ↔ ∃ part ∈ parts, word <:+: part := by
  induction parts with
  | nil => simp [nonempty]
  | cons part rest ih =>
      cases rest with
      | nil => simp
      | cons other rest =>
          rw [List.intercalate_cons_cons, List.append_assoc, List.singleton_append,
            infix_append_separator word nonempty free, List.exists_mem_cons_iff, ← ih]

/-- The part up to the first separator is the same in a list and in its front. -/
theorem prefix_append_separator (part part' front list : List A) (free : separator ∉ part)
    (free' : separator ∉ part') :
    part ++ separator :: front <+: part' ++ separator :: list ↔ part = part' ∧ front <+: list := by
  constructor
  · intro starts
    induction part generalizing part' with
    | nil =>
        cases part' with
        | nil => exact ⟨rfl, (List.cons_prefix_cons.mp starts).2⟩
        | cons a part' =>
            have same := (List.cons_prefix_cons.mp starts).1
            exact absurd (by rw [same]; exact List.mem_cons_self) free'
    | cons a part ih =>
        rw [List.mem_cons, not_or] at free
        cases part' with
        | nil => exact absurd (List.cons_prefix_cons.mp starts).1.symm free.1
        | cons b part' =>
            rw [List.mem_cons, not_or] at free'
            obtain ⟨rfl, later⟩ := List.cons_prefix_cons.mp starts
            obtain ⟨rfl, rest⟩ := ih part' free.2 free'.2 later
            exact ⟨rfl, rest⟩
  · rintro ⟨rfl, starts⟩
    obtain ⟨back, rfl⟩ := starts
    exact ⟨back, by simp⟩

/-- The last separator splits a list in one way. -/
theorem append_separator_inj {front front' part part' : List A} (free : separator ∉ part)
    (free' : separator ∉ part') (same : front ++ separator :: part = front' ++ separator :: part') :
    front = front' ∧ part = part' := by
  have turned : part.reverse ++ separator :: front.reverse =
      part'.reverse ++ separator :: front'.reverse := by
    simpa using congrArg List.reverse same
  have starts : part.reverse ++ separator :: front.reverse <+:
      part'.reverse ++ separator :: front'.reverse := by rw [turned]
  obtain ⟨parts, _⟩ := (prefix_append_separator _ _ _ _ (by simpa using free)
    (by simpa using free')).mp starts
  obtain rfl := List.reverse_injective parts
  exact ⟨List.append_cancel_right same, rfl⟩

end Kortex.Split
