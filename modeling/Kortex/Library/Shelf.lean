import Kortex.Library.Run
import Mathlib.Data.Set.Insert

/-
This file gives the stores that keep the first entry of each key, as their readers see them.
-/

namespace Kortex

/-- A shelf shows which keys it holds and which marks its entries carry. -/
structure Shelf (Key Mark : Type) where
  keys : Set Key
  marks : Set Mark

namespace Shelf

variable {Key Mark : Type}

open Classical in
/-- An entry whose key is held already is folded away, and its mark with it. -/
noncomputable def put (s : Shelf Key Mark) (entry : Key × Mark) : Shelf Key Mark :=
  if entry.1 ∈ s.keys then s else ⟨insert entry.1 s.keys, insert entry.2 s.marks⟩

theorem put_held (s : Shelf Key Mark) (entry : Key × Mark) (held : entry.1 ∈ s.keys) :
    put s entry = s := if_pos held

theorem put_new (s : Shelf Key Mark) (entry : Key × Mark) (fresh : entry.1 ∉ s.keys) :
    put s entry = ⟨insert entry.1 s.keys, insert entry.2 s.marks⟩ := if_neg fresh

theorem keys_put (s : Shelf Key Mark) (entry : Key × Mark) :
    (put s entry).keys = insert entry.1 s.keys := by
  by_cases held : entry.1 ∈ s.keys
  · rw [put_held s entry held, Set.insert_eq_of_mem held]
  · rw [put_new s entry held]

/-- The entry is the first one with its key, which the shelf does not hold. -/
def First (s : Shelf Key Mark) (entries : List (Key × Mark)) (entry : Key × Mark) : Prop :=
  ∃ before after, entries = before ++ entry :: after ∧ entry.1 ∉ s.keys ∧
    ∀ other ∈ before, other.1 ≠ entry.1

theorem not_first_nil (s : Shelf Key Mark) (entry : Key × Mark) : ¬ First s [] entry := by
  rintro ⟨before, after, split, _⟩
  simp at split

theorem first_cons (s : Shelf Key Mark) (entry : Key × Mark) (rest : List (Key × Mark))
    (x : Key × Mark) :
    First s (entry :: rest) x ↔ (x = entry ∧ entry.1 ∉ s.keys) ∨ First (put s entry) rest x := by
  constructor
  · rintro ⟨before, after, split, fresh, earlier⟩
    cases before with
    | nil =>
        obtain ⟨rfl, _⟩ := List.cons.inj split
        exact Or.inl ⟨rfl, fresh⟩
    | cons head before =>
        obtain ⟨rfl, rest⟩ := List.cons.inj split
        rw [List.forall_mem_cons] at earlier
        refine Or.inr ⟨before, after, rest, ?_, earlier.2⟩
        rw [keys_put, Set.mem_insert_iff, not_or]
        exact ⟨Ne.symm earlier.1, fresh⟩
  · rintro (⟨rfl, fresh⟩ | ⟨before, after, rfl, fresh, earlier⟩)
    · exact ⟨[], rest, rfl, fresh, by simp⟩
    · rw [keys_put, Set.mem_insert_iff, not_or] at fresh
      refine ⟨entry :: before, after, rfl, fresh.2, ?_⟩
      rw [List.forall_mem_cons]
      exact ⟨Ne.symm fresh.1, earlier⟩

/-- A run holds the keys of all its entries. -/
theorem mem_keys_final (s : Shelf Key Mark) (entries : List (Key × Mark)) (key : Key) :
    key ∈ (Run.final put s entries).keys ↔ key ∈ s.keys ∨ ∃ entry ∈ entries, entry.1 = key := by
  induction entries generalizing s with
  | nil => simp
  | cons entry rest ih =>
      rw [Run.final_cons, ih, keys_put, Set.mem_insert_iff, List.exists_mem_cons_iff]
      tauto

/-- A run carries the marks of the first entries of the new keys, and no other new mark. -/
theorem mem_marks_final (s : Shelf Key Mark) (entries : List (Key × Mark)) (mark : Mark) :
    mark ∈ (Run.final put s entries).marks ↔
      mark ∈ s.marks ∨ ∃ entry, First s entries entry ∧ entry.2 = mark := by
  induction entries generalizing s with
  | nil => simp [not_first_nil]
  | cons entry rest ih =>
      rw [Run.final_cons, ih]
      simp only [first_cons]
      by_cases held : entry.1 ∈ s.keys
      · rw [put_held s entry held]
        simp [held]
      · have marks : mark ∈ (put s entry).marks ↔ mark = entry.2 ∨ mark ∈ s.marks := by
          rw [put_new s entry held, Set.mem_insert_iff]
        rw [marks]
        constructor
        · rintro ((rfl | old) | ⟨x, first, same⟩)
          · exact Or.inr ⟨entry, Or.inl ⟨rfl, held⟩, rfl⟩
          · exact Or.inl old
          · exact Or.inr ⟨x, Or.inr first, same⟩
        · rintro (old | ⟨x, ⟨rfl, _⟩ | first, rfl⟩)
          · exact Or.inl (Or.inr old)
          · exact Or.inl (Or.inl rfl)
          · exact Or.inr ⟨x, first, rfl⟩

/-- Entries whose keys are held leave the shelf as it is. -/
theorem final_held (s : Shelf Key Mark) (entries : List (Key × Mark))
    (held : ∀ entry ∈ entries, entry.1 ∈ s.keys) : Run.final put s entries = s := by
  induction entries with
  | nil => rfl
  | cons entry rest ih =>
      rw [List.forall_mem_cons] at held
      rw [Run.final_cons, put_held s entry held.1, ih held.2]

theorem held_after (s : Shelf Key Mark) (entries : List (Key × Mark)) (entry : Key × Mark)
    (present : entry ∈ entries) : entry.1 ∈ (Run.final put s entries).keys :=
  (mem_keys_final s entries entry.1).mpr (Or.inr ⟨entry, present, rfl⟩)

end Shelf
/-- This counts the entries of each key. -/
abbrev Tally (Key : Type) := Key → Nat

namespace Tally

variable {Key : Type} [DecidableEq Key]

/-- A key that is there already is not counted again. -/
def put (t : Tally Key) (key : Key) : Tally Key :=
  fun other => if key = other ∧ t key = 0 then 1 else t other

theorem put_held (t : Tally Key) (key : Key) (held : 0 < t key) : put t key = t := by
  funext other
  exact if_neg fun both => held.ne' both.2

/-- Each key is there once more only if it was not there. -/
theorem final_put (t : Tally Key) (keys : List Key) (key : Key) :
    Run.final put t keys key = if t key = 0 ∧ key ∈ keys then 1 else t key := by
  induction keys generalizing t with
  | nil => simp
  | cons first rest ih =>
      rw [Run.final_cons, ih, put]
      by_cases same : first = key
      · subst same
        by_cases absent : t first = 0
        · simp [absent]
        · simp [absent]
      · have other : key ≠ first := fun equal => same equal.symm
        simp [same, other]

/-- Keys that come again later make no difference. -/
theorem final_put_again (t : Tally Key) (keys more : List Key) (again : keys ⊆ more) :
    Run.final put (Run.final put t keys) more = Run.final put t more := by
  funext key
  rw [final_put, final_put, final_put]
  by_cases early : t key = 0 ∧ key ∈ keys
  · simp [early, again early.2]
  · rw [if_neg early]

end Tally

end Kortex
