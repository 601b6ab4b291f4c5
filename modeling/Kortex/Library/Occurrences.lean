import Kortex.Library.Text

/-
This file proves what `str.count` and `str.replace` say about the positions of a text in a string.
-/

namespace Kortex.Str

/-- The text stands in the string at the position. -/
def OccursAt (old s : Str) (i : Nat) : Prop := old <+: s.drop i

variable (old : Str)

theorem occursAt_zero (c : Char) (s : Str) :
    OccursAt old (c :: s) 0 ↔ old.isPrefixOf (c :: s) = true := by
  rw [List.isPrefixOf_iff_prefix]
  rfl

theorem occursAt_drop (s : Str) (n i : Nat) : OccursAt old (s.drop n) i ↔ OccursAt old s (n + i) := by
  rw [OccursAt, OccursAt, List.drop_drop]

theorem not_occursAt_nil (filled : old ≠ []) (i : Nat) : ¬ OccursAt old [] i := by
  intro occurs
  rw [OccursAt, List.drop_nil, List.prefix_nil] at occurs
  exact filled occurs

theorem countFrom_eq (skip : Nat) (s : Str) : countFrom old skip s = count old (s.drop skip) := by
  induction skip generalizing s with
  | zero => rfl
  | succ skip ih =>
      cases s with
      | nil => rfl
      | cons c s => exact ih s

/-- The count goes on behind an occurrence. -/
theorem count_of_occursAt_zero (filled : old ≠ []) (s : Str) (occurs : OccursAt old s 0) :
    count old s = count old (s.drop old.length) + 1 := by
  cases s with
  | nil => exact absurd occurs (not_occursAt_nil old filled 0)
  | cons c s =>
      obtain ⟨d, tail, rfl⟩ := List.exists_cons_of_ne_nil filled
      rw [count, countFrom, if_pos ((occursAt_zero _ c s).mp occurs), countFrom_eq]
      rfl

theorem count_cons (c : Char) (s : Str) (absent : ¬ OccursAt old (c :: s) 0) :
    count old (c :: s) = count old s := by
  rw [occursAt_zero] at absent
  rw [count, countFrom, if_neg absent]
  rfl

theorem count_pos_iff (filled : old ≠ []) (s : Str) : 0 < count old s ↔ ∃ i, OccursAt old s i := by
  induction s with
  | nil =>
      have none : ¬ ∃ i, OccursAt old [] i := fun ⟨i, occurs⟩ => not_occursAt_nil old filled i occurs
      exact ⟨fun positive => absurd positive (Nat.lt_irrefl 0), fun some => absurd some none⟩
  | cons c s ih =>
      by_cases first : OccursAt old (c :: s) 0
      · rw [count_of_occursAt_zero old filled _ first]
        exact ⟨fun _ => ⟨0, first⟩, fun _ => Nat.succ_pos _⟩
      · rw [count_cons old c s first, ih]
        constructor
        · rintro ⟨i, occurs⟩
          exact ⟨i + 1, occurs⟩
        · rintro ⟨i, occurs⟩
          cases i with
          | zero => exact absurd occurs first
          | succ i => exact ⟨i, occurs⟩

/-- The count is greater than one exactly when two occurrences stand apart. -/
theorem one_lt_count_iff (filled : old ≠ []) (s : Str) :
    1 < count old s ↔ ∃ i j, OccursAt old s i ∧ OccursAt old s j ∧ i + old.length ≤ j := by
  induction s with
  | nil =>
      constructor
      · intro many
        exact absurd many (by simp [count, countFrom])
      · rintro ⟨i, _, occurs, _⟩
        exact absurd occurs (not_occursAt_nil old filled i)
  | cons c s ih =>
      by_cases first : OccursAt old (c :: s) 0
      · rw [count_of_occursAt_zero old filled _ first, Nat.lt_add_left_iff_pos, count_pos_iff old filled]
        simp only [occursAt_drop]
        constructor
        · rintro ⟨k, occurs⟩
          exact ⟨0, old.length + k, first, occurs, by omega⟩
        · rintro ⟨i, j, _, occurs, apart⟩
          exact ⟨j - old.length, by rwa [Nat.add_sub_cancel' (by omega)]⟩
      · rw [count_cons old c s first, ih]
        constructor
        · rintro ⟨i, j, before, after, apart⟩
          exact ⟨i + 1, j + 1, before, after, by omega⟩
        · rintro ⟨i, j, before, after, apart⟩
          cases i with
          | zero => exact absurd before first
          | succ i =>
              cases j with
              | zero => exact absurd after first
              | succ j => exact ⟨i, j, before, after, by omega⟩

/-- The first occurrence is replaced. -/
theorem replaceFirst_eq (new s : Str) (i : Nat) (occurs : OccursAt old s i)
    (first : ∀ j < i, ¬ OccursAt old s j) (filled : old ≠ []) :
    replaceFirst old new s = s.take i ++ new ++ s.drop (i + old.length) := by
  induction s generalizing i with
  | nil => exact absurd occurs (not_occursAt_nil old filled i)
  | cons c s ih =>
      cases i with
      | zero => rw [replaceFirst, if_pos ((occursAt_zero old c s).mp occurs)]; simp
      | succ i =>
          have later := first 0 (by omega)
          rw [occursAt_zero] at later
          rw [replaceFirst, if_neg later, ih i occurs fun j below => first (j + 1) (by omega)]
          rw [Nat.add_right_comm]
          rfl

/-- A text that occurs has a part before its first occurrence and one behind it. -/
theorem replaceFirst_parts (filled : old ≠ []) (s : Str) (some : 0 < count old s) :
    ∃ front back, s = front ++ old ++ back ∧
      ∀ new, replaceFirst old new s = front ++ new ++ back := by
  have somewhere := (count_pos_iff old filled s).mp some
  classical
  have first := Nat.find_spec somewhere
  refine ⟨s.take (Nat.find somewhere), s.drop (Nat.find somewhere + old.length), ?_, ?_⟩
  · obtain ⟨rest, split⟩ := first
    rw [← List.drop_drop, ← split, List.drop_left, List.append_assoc, split, List.take_append_drop]
  · intro new
    exact replaceFirst_eq old new s _ first (fun j below => Nat.find_min somewhere below) filled

/-- A text that occurs changes exactly when another text replaces it. -/
theorem replaceFirst_eq_self_iff (new s : Str) (some : 0 < count old s) :
    replaceFirst old new s = s ↔ new = old := by
  induction s with
  | nil => exact absurd some (by simp [count, countFrom])
  | cons c s ih =>
      rw [replaceFirst]
      split
      · rename_i first
        obtain ⟨rest, split⟩ := List.isPrefixOf_iff_prefix.mp first
        rw [← split, List.drop_left, List.append_left_inj]
      · rename_i later
        rw [count_cons old c s (by rwa [occursAt_zero])] at some
        rw [List.cons.injEq, ih some]
        simp

theorem count_singleton (c : Char) (s : Str) : count [c] s = List.count c s := by
  induction s with
  | nil => rfl
  | cons d s ih =>
      by_cases same : c = d
      · subst same
        rw [count_of_occursAt_zero [c] (by simp) (c :: s) ⟨s, rfl⟩, List.count_cons_self, ← ih]
        rfl
      · rw [count_cons [c] d s, ih, List.count_cons_of_ne (Ne.symm same)]
        rw [occursAt_zero]
        simp [List.isPrefixOf, same]

/-- The text stands at the position, and nowhere else. -/
def OnlyAt (old s : Str) (i : Nat) : Prop := OccursAt old s i ∧ ∀ j, OccursAt old s j → j = i

theorem count_eq_one (filled : old ≠ []) (s : Str) (i : Nat) (only : OnlyAt old s i) :
    count old s = 1 := by
  have some := (count_pos_iff old filled s).mpr ⟨i, only.1⟩
  have few : ¬ 1 < count old s := by
    rw [one_lt_count_iff old filled]
    rintro ⟨j, k, before, after, apart⟩
    have positive := List.length_pos_of_ne_nil filled
    rw [only.2 j before, only.2 k after] at apart
    omega
  omega

theorem replaceFirst_onlyAt (new s : Str) (i : Nat) (only : OnlyAt old s i) (filled : old ≠ []) :
    replaceFirst old new s = s.take i ++ new ++ s.drop (i + old.length) := by
  apply replaceFirst_eq old new s i only.1 _ filled
  intro j below occurs
  have same := only.2 j occurs
  omega

end Kortex.Str
