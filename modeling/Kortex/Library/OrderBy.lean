import Mathlib.Data.List.Sort
import Mathlib.Tactic

/-
This file describes what a database may return for a query with an `ORDER BY` that does not order all
rows.
-/

namespace Kortex

variable {Row K B : Type} [LinearOrder K]

/-- Rows with equal keys may come in any order. -/
def OrderBy (key : Row → K) (limit : Nat) (rows answer : List Row) : Prop :=
  ∃ sorted : List Row, sorted.Perm rows ∧ (sorted.map key).Pairwise (· ≤ ·) ∧ answer = sorted.take limit

namespace OrderBy

variable {key : Row → K}

theorem exists_answer (rows : List Row) (limit : Nat) : ∃ answer, OrderBy key limit rows answer := by
  have total : Std.Total fun a b : Row => key a ≤ key b := ⟨fun a b => le_total (key a) (key b)⟩
  have trans : IsTrans Row fun a b => key a ≤ key b := ⟨fun _ _ _ => le_trans⟩
  refine ⟨_, _, List.perm_insertionSort (fun a b => key a ≤ key b) rows, ?_, rfl⟩
  rw [List.pairwise_map]
  exact List.pairwise_insertionSort (fun a b => key a ≤ key b) rows

theorem perm_of_le {limit : Nat} {rows answer : List Row} (enough : rows.length ≤ limit)
    (given : OrderBy key limit rows answer) :
    answer.Perm rows ∧ (answer.map key).Pairwise (· ≤ ·) := by
  obtain ⟨sorted, same, rises, rfl⟩ := given
  rw [List.take_of_length_le (same.length_eq.trans_le enough)]
  exact ⟨same, rises⟩

/-- An answer to a query of sorted rows has their keys in their order. -/
theorem map_key {limit : Nat} {rows answer : List Row} (enough : rows.length ≤ limit)
    (rises : (rows.map key).Pairwise (· ≤ ·)) (given : OrderBy key limit rows answer) :
    answer.map key = rows.map key := by
  obtain ⟨same, rises'⟩ := perm_of_le enough given
  exact (same.map key).eq_of_pairwise (fun _ _ _ _ => le_antisymm) rises' rises

/-- Two rows with equal keys may change their places. -/
theorem swap (rows : List Row) (rises : (rows.map key).Pairwise (· ≤ ·)) (i j : Nat)
    (first : i < rows.length) (second : j < rows.length) (same : key rows[i] = key rows[j]) :
    OrderBy key rows.length rows ((rows.set i rows[j]).set j rows[i]) := by
  refine ⟨_, List.set_set_perm first second, ?_, ?_⟩
  · have keys : ((rows.set i rows[j]).set j rows[i]).map key = rows.map key := by
      apply List.ext_getElem
      · simp
      · intro k small small'
        rw [List.getElem_map, List.getElem_map, List.getElem_set, List.getElem_set]
        split
        · next here => simp only [← here, same]
        · split
          · next here => simp only [← here, same]
          · rfl
    rw [keys]
    exact rises
  · simp

/-- All answers show sorted rows in their order exactly when rows with equal keys look the same. -/
theorem forall_map_eq_iff (f : Row → B) (rows : List Row) (rises : (rows.map key).Pairwise (· ≤ ·)) :
    (∀ limit answer, rows.length ≤ limit → OrderBy key limit rows answer → answer.map f = rows.map f) ↔
      ∀ a ∈ rows, ∀ b ∈ rows, key a = key b → f a = f b := by
  constructor
  · intro all a first b second same
    obtain ⟨i, small, rfl⟩ := List.mem_iff_getElem.mp first
    obtain ⟨j, small', rfl⟩ := List.mem_iff_getElem.mp second
    have shown := all rows.length _ (Nat.le_refl _) (swap rows rises i j small small' same)
    have place := List.getElem_of_eq shown (i := j) (by simpa using small')
    simpa using place
  · intro alike limit answer enough given
    obtain ⟨moved, _⟩ := perm_of_le enough given
    have keys := map_key enough rises given
    apply List.ext_getElem
    · simpa using moved.length_eq
    · intro k small small'
      rw [List.length_map] at small small'
      rw [List.getElem_map, List.getElem_map]
      apply alike _ (moved.mem_iff.mp (List.getElem_mem small)) _ (List.getElem_mem small')
      have place := List.getElem_of_eq keys (i := k) (by simpa using small)
      rwa [List.getElem_map, List.getElem_map] at place

end OrderBy
end Kortex
