import Mathlib.Algebra.Order.Floor.Ring
import Mathlib.Data.Rat.Floor
import Mathlib.Tactic

/-
This file gives the rounding of Python's `round` and the rules for the places of a sorted list.
-/

namespace Kortex

/-- This is `round`, which takes the even neighbour of a number between two. -/
def roundHalfEven (x : ℚ) : Int :=
  let fraction := x - ⌊x⌋
  if fraction < 1 / 2 then ⌊x⌋
  else if 1 / 2 < fraction then ⌊x⌋ + 1
  else if ⌊x⌋ % 2 = 0 then ⌊x⌋ else ⌊x⌋ + 1

theorem roundHalfEven_div (a d : Nat) (positive : 0 < d) : roundHalfEven ((a : ℚ) / d) =
    (a / d + if d < 2 * (a % d) ∨ (2 * (a % d) = d ∧ a / d % 2 = 1) then 1 else 0 : Nat) := by
  have divisor : (0 : ℚ) < d := Nat.cast_pos.mpr positive
  have parts : (a : ℚ) = d * (a / d : Nat) + (a % d : Nat) := by
    exact_mod_cast (Nat.div_add_mod a d).symm
  have below : ((a % d : Nat) : ℚ) < d := Nat.cast_lt.mpr (Nat.mod_lt a positive)
  have value : (a : ℚ) / d = (a / d : Nat) + (a % d : Nat) / (d : ℚ) := by
    conv_lhs => rw [parts]
    rw [add_div, mul_div_cancel_left₀ _ divisor.ne']
  have small : ((a % d : Nat) : ℚ) / d < 1 := (div_lt_one divisor).mpr below
  have whole : ⌊(a : ℚ) / d⌋ = (a / d : Nat) := by
    rw [Int.floor_eq_iff, value, Int.cast_natCast]
    constructor
    · exact le_add_of_nonneg_right (by positivity)
    · linarith
  have fraction : (a : ℚ) / d - ⌊(a : ℚ) / d⌋ = (a % d : Nat) / (d : ℚ) := by
    rw [whole, value, Int.cast_natCast, add_sub_cancel_left]
  have low : ((a % d : Nat) : ℚ) / d < 1 / 2 ↔ 2 * (a % d) < d := by
    rw [div_lt_div_iff₀ divisor two_pos, one_mul, mul_comm]
    exact_mod_cast Iff.rfl
  have high : 1 / 2 < ((a % d : Nat) : ℚ) / d ↔ d < 2 * (a % d) := by
    rw [div_lt_div_iff₀ two_pos divisor, one_mul, mul_comm]
    exact_mod_cast Iff.rfl
  simp only [roundHalfEven, fraction, low, high]
  rw [whole]
  split_ifs <;> omega

namespace OrderStatistic

variable {A : Type} [LinearOrder A] {items : List A}

/-- The items up to a place are not above the item at this place. -/
theorem lt_countP_le (sorted : items.Pairwise (· ≤ ·)) (i : Nat) (small : i < items.length) :
    i < items.countP (· ≤ items[i]) := by
  have front : (items.take (i + 1)).countP (· ≤ items[i]) = (items.take (i + 1)).length := by
    rw [List.countP_eq_length]
    intro a inside
    obtain ⟨j, place, rfl⟩ := List.mem_iff_getElem.mp inside
    rw [List.length_take] at place
    rw [List.getElem_take, decide_eq_true_iff]
    rcases Nat.lt_or_ge j i with less | other
    · exact List.pairwise_iff_getElem.mp sorted j i (by omega) small less
    · have same : j = i := by omega
      subst same
      exact le_rfl
  have shorter : (items.take (i + 1)).countP (· ≤ items[i]) ≤ items.countP (· ≤ items[i]) :=
    (List.take_sublist (i + 1) items).countP_le
  rw [front, List.length_take] at shorter
  omega

/-- Items with at least so many items not above them are not below the item at the place. -/
theorem getElem_le_of_lt_countP (sorted : items.Pairwise (· ≤ ·)) (i : Nat) (small : i < items.length)
    (a : A) (many : i < items.countP (· ≤ a)) : items[i] ≤ a := by
  by_contra above
  have back : (items.drop i).countP (· ≤ a) = 0 := by
    rw [List.countP_eq_zero]
    intro b inside
    obtain ⟨j, place, rfl⟩ := List.mem_iff_getElem.mp inside
    rw [List.length_drop] at place
    rw [List.getElem_drop, decide_eq_true_iff, not_le]
    refine (not_le.mp above).trans_le ?_
    rcases Nat.eq_zero_or_pos j with rfl | later
    · simp
    · exact List.pairwise_iff_getElem.mp sorted i (i + j) small (by omega) (by omega)
  have parted := congrArg (List.countP (· ≤ a)) (List.take_append_drop i items)
  have few := List.countP_le_length (l := items.take i) (p := fun b => decide (b ≤ a))
  rw [List.countP_append, back] at parted
  rw [List.length_take] at few
  omega

/-- The item at a place is the least one with so many items not above it. -/
theorem isLeast_iff (sorted : items.Pairwise (· ≤ ·)) (i : Nat) (small : i < items.length) (a : A) :
    IsLeast {x | x ∈ items ∧ i < items.countP (· ≤ x)} a ↔ items[i]? = some a := by
  have least : IsLeast {x | x ∈ items ∧ i < items.countP (· ≤ x)} items[i] :=
    ⟨⟨List.getElem_mem small, lt_countP_le sorted i small⟩, fun x other =>
      getElem_le_of_lt_countP sorted i small x other.2⟩
  rw [List.getElem?_eq_getElem small, Option.some.injEq]
  exact ⟨fun other => least.unique other, fun same => same ▸ least⟩

end OrderStatistic
end Kortex
