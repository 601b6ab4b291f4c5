import Mathlib.Data.List.Basic
import Mathlib.Tactic

/-
This file describes a greedy choice from a list: an item is chosen when there is room for it.
-/

namespace Kortex.Greedy

variable {A : Type} (limit : Nat) (weight : A → Nat)

def total (items : List A) : Nat := (items.map weight).sum

/-- These are the items that have a mark. -/
def marked : List A → List Bool → List A
  | item :: items, mark :: marks => if mark then item :: marked items marks else marked items marks
  | _, _ => []

/-- An item gets a mark when there is room for it beside those that have one. -/
def scan : Nat → List A → List Bool
  | _, [] => []
  | used, item :: rest =>
      if limit < used + weight item then false :: scan used rest
      else true :: scan (used + weight item) rest

/-- The marked items are within the limit, and each other one did not fit beside those before it. -/
structure Choice (used : Nat) (items : List A) (marks : List Bool) : Prop where
  length : marks.length = items.length
  within : used + total weight (marked items marks) ≤ limit
  full : ∀ i item, items[i]? = some item → marks[i]? = some false →
    limit < used + total weight (marked (items.take i) marks) + weight item

variable {limit weight}

theorem sublist_marked (items : List A) (marks : List Bool) : (marked items marks).Sublist items := by
  induction items generalizing marks with
  | nil => exact List.Sublist.refl _
  | cons item rest ih =>
      cases marks with
      | nil => exact List.nil_sublist _
      | cons mark marks =>
          rw [marked]
          split
          · exact (ih marks).cons_cons item
          · exact (ih marks).cons item

theorem total_cons (item : A) (items : List A) :
    total weight (item :: items) = weight item + total weight items := by
  rw [total, List.map_cons, List.sum_cons]
  rfl

theorem Choice.skip {used : Nat} {item : A} {rest : List A} {marks : List Bool}
    (later : Choice limit weight used rest marks) (full : limit < used + weight item) :
    Choice limit weight used (item :: rest) (false :: marks) where
  length := congrArg (· + 1) later.length
  within := later.within
  full i other here unmarked := by
    cases i with
    | zero =>
        obtain rfl := Option.some.inj here
        exact full
    | succ i => exact later.full i other here unmarked

theorem Choice.take {used : Nat} {item : A} {rest : List A} {marks : List Bool}
    (later : Choice limit weight (used + weight item) rest marks) :
    Choice limit weight used (item :: rest) (true :: marks) where
  length := congrArg (· + 1) later.length
  within := by
    have within := later.within
    rw [marked, if_pos rfl, total_cons]
    omega
  full i other here unmarked := by
    cases i with
    | zero => cases unmarked
    | succ i =>
        have full := later.full i other here unmarked
        rw [List.take_succ_cons, marked, if_pos rfl, total_cons]
        omega

theorem choice_scan (items : List A) (used : Nat) (room : used ≤ limit) :
    Choice limit weight used items (scan limit weight used items) := by
  induction items generalizing used with
  | nil => exact ⟨rfl, room, fun i item none => absurd none (by simp)⟩
  | cons item rest ih =>
      rw [scan]
      split
      · rename_i full
        exact (ih used room).skip full
      · exact (ih (used + weight item) (by omega)).take

end Kortex.Greedy
