import Kortex.Library.Table

/-
This file models a table under concurrent transactions whose statements read committed rows.
-/

namespace Kortex

/-- A change of the row with one identity. -/
structure RowChange {Row Ident : Type} (ident : Row → Ident) where
  target : Ident
  change : Row → Row
  keeps : ∀ row, ident (change row) = ident row

namespace RowChange

variable {Row Ident : Type} [DecidableEq Ident] {ident : Row → Ident}

def apply (c : RowChange ident) (row : Row) : Row :=
  if ident row = c.target then c.change row else row

def applyAll (changes : List (RowChange ident)) (row : Row) : Row :=
  changes.foldl (fun row c => c.apply row) row

@[simp] theorem applyAll_nil (row : Row) : applyAll ([] : List (RowChange ident)) row = row := rfl

theorem applyAll_concat (changes : List (RowChange ident)) (c : RowChange ident) (row : Row) :
    applyAll (changes ++ [c]) row = c.apply (applyAll changes row) := by
  rw [applyAll, List.foldl_append]
  rfl

theorem ident_apply (c : RowChange ident) (row : Row) : ident (c.apply row) = ident row := by
  unfold apply
  split
  · exact c.keeps row
  · rfl

theorem ident_applyAll (changes : List (RowChange ident)) (row : Row) :
    ident (applyAll changes row) = ident row := by
  induction changes generalizing row with
  | nil => rfl
  | cons c rest ih => exact (ih (c.apply row)).trans (ident_apply c row)

/-- A relation between rows that every change respects is respected by the list of changes. -/
theorem applyAll_rel {R : Row → Row → Prop} (changes : List (RowChange ident))
    (respects : ∀ c ∈ changes, ∀ row row', R row row' → R (c.change row) (c.change row')) :
    ∀ row row', ident row = ident row' → R row row' →
      R (applyAll changes row) (applyAll changes row') := by
  induction changes with
  | nil => exact fun _ _ _ related => related
  | cons c rest ih =>
      intro row row' same related
      apply ih (fun c inside => respects c (List.mem_cons_of_mem _ inside)) (c.apply row) (c.apply row')
      · rw [ident_apply c row, ident_apply c row', same]
      · unfold apply
        by_cases hit : ident row = c.target
        · rw [if_pos hit, if_pos (same ▸ hit)]
          exact respects c List.mem_cons_self row row' related
        · rw [if_neg hit, if_neg (same ▸ hit)]
          exact related

/-- A relation that holds between a row and each of its changes holds for the list of changes. -/
theorem rel_applyAll {R : Row → Row → Prop} (changes : List (RowChange ident))
    (refl : ∀ row, R row row) (trans : ∀ a b c, R a b → R b c → R a c)
    (related : ∀ c ∈ changes, ∀ row, R row (c.change row)) (row : Row) :
    R row (applyAll changes row) := by
  induction changes generalizing row with
  | nil => exact refl row
  | cons c rest ih =>
      have after := ih (fun c inside => related c (List.mem_cons_of_mem _ inside)) (c.apply row)
      apply trans row (c.apply row) _ _ after
      unfold apply
      split
      · exact related c List.mem_cons_self row
      · exact refl row

end RowChange

/-- The heap holds the rows of committed and of open transactions. A row that an open transaction has
inserted is owned by it. Its changes of rows take effect when it commits, and lock these rows. -/
structure Versions {Row Ident : Type} (ident : Row → Ident) (apart : Ident → Ident → Prop) where
  heap : Table ident apart
  owner : Ident → Option Nat
  holder : Ident → Option Nat
  changes : Nat → List (RowChange ident)

namespace Versions

open RowChange

section

variable {Row Ident : Type} {ident : Row → Ident} {apart : Ident → Ident → Prop}
variable (v : Versions ident apart) (tx tx' : Nat)

/-- A statement sees the committed rows and the rows of its own transaction. -/
def visible (row : Row) : Bool := (v.owner (ident row)).all (· == tx)

def committed : Table ident apart := v.heap.delete fun row => (v.owner (ident row)).isSome

/-- A transaction that ends owns no rows. -/
def release (i : Ident) : Option Nat := if v.owner i = some tx then none else v.owner i

/-- A transaction that ends holds no locks. -/
def unlock (i : Ident) : Option Nat := if v.holder i = some tx then none else v.holder i

/-- No other transaction holds the lock of the row. -/
def free (i : Ident) : Bool := (v.holder i).all (· == tx)

def rollback : Versions ident apart where
  heap := v.heap.delete fun row => v.owner (ident row) == some tx
  owner := v.release tx
  holder := v.unlock tx
  changes := Function.update v.changes tx []

/-- Every row of the table is committed. -/
def ofTable (table : Table ident apart) : Versions ident apart :=
  ⟨table, fun _ => none, fun _ => none, fun _ => []⟩

theorem visible_iff (row : Row) :
    v.visible tx row = true ↔ v.owner (ident row) = none ∨ v.owner (ident row) = some tx := by
  unfold visible
  cases v.owner (ident row) <;> simp

theorem mem_committed (row : Row) :
    row ∈ v.committed.rows ↔ row ∈ v.heap.rows ∧ v.owner (ident row) = none := by
  simp [committed, Table.delete]

theorem release_eq_none (i : Ident) :
    v.release tx i = none ↔ v.owner i = none ∨ v.owner i = some tx := by
  unfold release
  split
  · rename_i own
    simp [own]
  · rename_i other
    simp [other]

theorem release_eq_some (different : tx' ≠ tx) (i : Ident) :
    v.release tx i = some tx' ↔ v.owner i = some tx' := by
  unfold release
  split
  · rename_i own
    simp [own, Ne.symm different]
  · exact Iff.rfl

theorem release_ne (i : Ident) : v.release tx i ≠ some tx := by
  unfold release
  split
  · exact (Option.some_ne_none tx).symm
  · assumption

theorem mem_heap_rollback (row : Row) :
    row ∈ (v.rollback tx).heap.rows ↔ row ∈ v.heap.rows ∧ v.owner (ident row) ≠ some tx := by
  simp [rollback, Table.delete]

/-- A rollback does not change what is committed. -/
theorem mem_committed_rollback (row : Row) :
    row ∈ (v.rollback tx).committed.rows ↔ row ∈ v.committed.rows := by
  rw [mem_committed, mem_committed, mem_heap_rollback]
  change (_ ∧ _) ∧ v.release tx (ident row) = none ↔ _
  rw [release_eq_none]
  constructor
  · rintro ⟨⟨inside, foreign⟩, either⟩
    exact ⟨inside, either.resolve_right foreign⟩
  · rintro ⟨inside, none⟩
    exact ⟨⟨inside, by simp [none]⟩, Or.inl none⟩

end

variable {Row Ident : Type} [DecidableEq Ident] {ident : Row → Ident} {apart : Ident → Ident → Prop}
variable (v : Versions ident apart) (tx tx' : Nat)

/-- This is what a statement of the transaction sees. -/
def view : Table ident apart :=
  (v.heap.delete fun row => !v.visible tx row).update (fun _ => true) (applyAll (v.changes tx))
    (ident_applyAll _)

/-- The heap has one more row, which the transaction owns. -/
def insert (heap : Table ident apart) (row : Row) : Versions ident apart :=
  { v with heap := heap, owner := Function.update v.owner (ident row) (some tx) }

/-- The transaction changes a row and locks it. -/
def change (c : RowChange ident) : Versions ident apart :=
  { v with
    holder := Function.update v.holder c.target (some tx)
    changes := Function.update v.changes tx (v.changes tx ++ [c]) }

def commit : Versions ident apart where
  heap := v.heap.update (v.visible tx) (applyAll (v.changes tx)) (ident_applyAll _)
  owner := v.release tx
  holder := v.unlock tx
  changes := Function.update v.changes tx []

theorem rows_view :
    (v.view tx).rows = (v.heap.rows.filter (v.visible tx)).map (applyAll (v.changes tx)) := by
  simp [view, Table.update, Table.delete, Table.changeRow]

theorem mem_view (row : Row) : row ∈ (v.view tx).rows ↔ ∃ r ∈ v.heap.rows,
    (v.owner (ident r) = none ∨ v.owner (ident r) = some tx) ∧ applyAll (v.changes tx) r = row := by
  simp only [rows_view, List.mem_map, List.mem_filter, visible_iff, and_assoc]

theorem ident_changeRow (changes : List (RowChange ident)) (chosen : Row → Bool) (row : Row) :
    ident (Table.changeRow chosen (applyAll changes) row) = ident row := by
  unfold Table.changeRow
  split
  · exact ident_applyAll changes row
  · rfl

/-- A commit publishes what the transaction has seen. -/
theorem rows_committed_commit : (v.commit tx).committed.rows = (v.view tx).rows := by
  have published (row : Row) : (v.release tx (ident (Table.changeRow (v.visible tx)
      (applyAll (v.changes tx)) row))).isNone = v.visible tx row := by
    rw [ident_changeRow (v.changes tx), Bool.eq_iff_iff, Option.isNone_iff_eq_none, release_eq_none,
      visible_iff]
  rw [rows_view]
  simp only [committed, commit, Table.delete, Table.update, Option.not_isSome, List.filter_map,
    Function.comp_def, published]
  apply List.map_congr_left
  intro row inside
  exact if_pos (List.mem_filter.mp inside).2

/-- After a commit, another transaction sees its own rows and what was published. -/
theorem mem_view_commit (different : tx' ≠ tx) (row : Row)
    (seen : row ∈ ((v.commit tx).view tx').rows) :
    (∃ r ∈ v.heap.rows, v.owner (ident r) = some tx' ∧ applyAll (v.changes tx') r = row) ∨
      ∃ r ∈ v.heap.rows, (v.owner (ident r) = none ∨ v.owner (ident r) = some tx) ∧
        applyAll (v.changes tx') (applyAll (v.changes tx) r) = row := by
  rw [mem_view] at seen
  obtain ⟨r, inside, owner, rfl⟩ := seen
  have changes : (v.commit tx).changes tx' = v.changes tx' := Function.update_of_ne different _ _
  rw [changes]
  obtain ⟨r, stored, rfl⟩ := List.mem_map.mp inside
  change v.release tx _ = none ∨ v.release tx _ = some tx' at owner
  rw [ident_changeRow (v.changes tx), release_eq_none, release_eq_some v tx tx' different] at owner
  by_cases visible : v.visible tx r = true
  · right
    exact ⟨r, stored, (visible_iff v tx r).mp visible, by rw [Table.changeRow, if_pos visible]⟩
  · left
    have hidden := fun either => visible ((visible_iff v tx r).mpr either)
    exact ⟨r, stored, owner.resolve_left hidden, by rw [Table.changeRow, if_neg visible]⟩

/-- After a rollback, another transaction sees what it saw. -/
theorem mem_view_rollback (different : tx' ≠ tx) (row : Row) :
    row ∈ ((v.rollback tx).view tx').rows ↔ row ∈ (v.view tx').rows := by
  have changes : (v.rollback tx).changes tx' = v.changes tx' := Function.update_of_ne different _ _
  simp only [mem_view, mem_heap_rollback, changes]
  constructor
  · rintro ⟨r, ⟨inside, foreign⟩, owner, same⟩
    change v.release tx _ = none ∨ v.release tx _ = some tx' at owner
    rw [release_eq_none, release_eq_some v tx tx' different] at owner
    exact ⟨r, inside, owner.imp_left fun either => either.resolve_right foreign, same⟩
  · rintro ⟨r, inside, owner, same⟩
    refine ⟨r, ⟨inside, ?_⟩, ?_, same⟩
    · rcases owner with none | own
      · simp [none]
      · simpa [own] using different
    · change v.release tx _ = none ∨ v.release tx _ = some tx'
      rw [release_eq_none, release_eq_some v tx tx' different]
      exact owner.imp_left Or.inl

/-- Between transactions, a session sees the committed rows. -/
theorem mem_view_of_released (ended : ∀ i, v.owner i ≠ some tx) (unchanged : v.changes tx = [])
    (row : Row) : row ∈ (v.view tx).rows ↔ row ∈ v.committed.rows := by
  rw [mem_view, mem_committed, unchanged]
  constructor
  · rintro ⟨r, inside, owner, rfl⟩
    exact ⟨inside, owner.resolve_right (ended _)⟩
  · rintro ⟨inside, none⟩
    exact ⟨row, inside, Or.inl none, rfl⟩

section

variable (heap : Table ident apart) (row : Row) (grows : heap.rows = v.heap.rows ++ [row])
  (fresh : ∀ r ∈ v.heap.rows, ident r ≠ ident row)

include grows fresh

theorem mem_heap_insert (r : Row) (i : Option Nat) :
    r ∈ (v.insert tx heap row).heap.rows ∧ (v.insert tx heap row).owner (ident r) = i ↔
      r ∈ v.heap.rows ∧ v.owner (ident r) = i ∨ r = row ∧ i = some tx := by
  change r ∈ heap.rows ∧ Function.update v.owner (ident row) (some tx) (ident r) = i ↔ _
  rw [grows, List.mem_append, List.mem_singleton]
  constructor
  · rintro ⟨inside | rfl, owner⟩
    · rw [Function.update_of_ne (fresh r inside)] at owner
      exact Or.inl ⟨inside, owner⟩
    · rw [Function.update_self] at owner
      exact Or.inr ⟨rfl, owner.symm⟩
  · rintro (⟨inside, owner⟩ | ⟨rfl, rfl⟩)
    · rw [Function.update_of_ne (fresh r inside)]
      exact ⟨Or.inl inside, owner⟩
    · exact ⟨Or.inr rfl, Function.update_self _ _ _⟩

theorem mem_committed_insert (r : Row) :
    r ∈ (v.insert tx heap row).committed.rows ↔ r ∈ v.committed.rows := by
  rw [mem_committed, mem_heap_insert v tx heap row grows fresh, mem_committed]
  simp

/-- The transaction sees its new row, as it has changed it. -/
theorem mem_view_insert (r : Row) : r ∈ ((v.insert tx heap row).view tx').rows ↔
    r ∈ (v.view tx').rows ∨ tx' = tx ∧ r = applyAll (v.changes tx) row := by
  simp only [mem_view, ← and_assoc, and_or_left, mem_heap_insert v tx heap row grows fresh]
  change (∃ x, _ ∧ applyAll (v.changes tx') x = r) ↔ _
  constructor
  · rintro ⟨x, ((old | ⟨_, none⟩) | old | ⟨rfl, own⟩), rfl⟩
    · exact Or.inl ⟨x, Or.inl old, rfl⟩
    · exact absurd none (Option.some_ne_none tx).symm
    · exact Or.inl ⟨x, Or.inr old, rfl⟩
    · cases Option.some.inj own
      exact Or.inr ⟨rfl, rfl⟩
  · rintro (⟨x, old, rfl⟩ | ⟨rfl, rfl⟩)
    · exact ⟨x, old.imp Or.inl Or.inl, rfl⟩
    · exact ⟨row, Or.inr (Or.inr ⟨rfl, rfl⟩), rfl⟩

end

theorem mem_view_change (c : RowChange ident) (row : Row) :
    row ∈ ((v.change tx c).view tx).rows ↔ ∃ r ∈ (v.view tx).rows, c.apply r = row := by
  have changes : (v.change tx c).changes tx = v.changes tx ++ [c] := Function.update_self _ _ _
  simp only [mem_view, changes, applyAll_concat]
  constructor
  · rintro ⟨r, inside, owner, same⟩
    exact ⟨_, ⟨r, inside, owner, rfl⟩, same⟩
  · rintro ⟨_, ⟨r, inside, owner, rfl⟩, same⟩
    exact ⟨r, inside, owner, same⟩

theorem view_change_of_ne (different : tx' ≠ tx) (c : RowChange ident) :
    ((v.change tx c).view tx').rows = (v.view tx').rows := by
  have changes : (v.change tx c).changes tx' = v.changes tx' := Function.update_of_ne different _ _
  rw [rows_view, rows_view, changes]
  rfl

end Versions
end Kortex
