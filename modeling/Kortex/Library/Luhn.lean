import Mathlib.Data.Nat.Digits.Defs
import Mathlib.Tactic

/-
This file gives the Luhn checksum of a list of decimal digits.
-/

namespace Kortex.Luhn

/-- Every second digit counts with the digits of its double. -/
def weight (doubles : Bool) (d : Nat) : Nat := if doubles then (Nat.digits 10 (2 * d)).sum else d

/-- The sum goes from the right to the left. -/
def sumFrom : Bool → List Nat → Nat
  | _, [] => 0
  | doubles, d :: rest => weight doubles d + sumFrom (!doubles) rest

/-- This is the sum of digits that are written from the left, where the last one is not doubled. -/
def checksum (digits : List Nat) : Nat := sumFrom false digits.reverse

theorem weight_doubled (d : Nat) (digit : d < 10) :
    weight true d = if 9 < d * 2 then d * 2 - 9 else d * 2 := by
  interval_cases d <;> decide

/-- Two digits of one place have different weights. -/
theorem weight_injective (doubles : Bool) (a b : Nat) (first : a < 10) (second : b < 10)
    (same : weight doubles a % 10 = weight doubles b % 10) : a = b := by
  cases doubles with
  | false =>
      simp only [weight, Bool.false_eq_true, if_false] at same
      omega
  | true =>
      rw [weight_doubled a first, weight_doubled b second] at same
      split at same <;> split at same <;> omega

/-- The place of a digit is odd or even. -/
def place (doubles : Bool) (before : List Nat) : Bool := doubles ^^ (before.length % 2 == 1)

theorem sumFrom_append (doubles : Bool) (front rest : List Nat) :
    sumFrom doubles (front ++ rest) = sumFrom doubles front + sumFrom (place doubles front) rest := by
  induction front generalizing doubles with
  | nil => simp [sumFrom, place]
  | cons d front ih =>
      have next : place (!doubles) front = place doubles (d :: front) := by
        rw [place, place, List.length_cons]
        rcases Nat.mod_two_eq_zero_or_one front.length with even | odd
        · simp [Nat.add_mod, even]
        · simp [Nat.add_mod, odd]
      rw [List.cons_append, sumFrom, sumFrom, ih, next, Nat.add_assoc]

/-- A further digit on the left counts by the number of digits on its right. -/
theorem checksum_cons (d : Nat) (digits : List Nat) :
    checksum (d :: digits) = checksum digits + weight (digits.length % 2 == 1) d := by
  rw [checksum, List.reverse_cons, sumFrom_append, checksum, place, List.length_reverse,
    Bool.false_xor, sumFrom, sumFrom, Nat.add_zero]

theorem checksum_append (front rest : List Nat) :
    checksum (front ++ rest) = checksum rest + sumFrom (place false rest.reverse) front.reverse := by
  rw [checksum, List.reverse_append, sumFrom_append, checksum]

/-- The check digit is added to the sum of the others, which all move by one place. -/
theorem checksum_concat (digits : List Nat) (d : Nat) :
    checksum (digits ++ [d]) = d + sumFrom true digits.reverse := by
  rw [checksum_append, checksum]
  rfl

/-- A change of one digit changes the last digit of the sum. -/
theorem checksum_replaced (front rest : List Nat) (a b : Nat) (first : a < 10) (second : b < 10)
    (differ : a ≠ b) : checksum (front ++ a :: rest) % 10 ≠ checksum (front ++ b :: rest) % 10 := by
  intro same
  rw [checksum_append, checksum_append, checksum_cons, checksum_cons, List.reverse_cons,
    List.reverse_cons, place, place, List.length_append, List.length_append, List.length_singleton,
    List.length_singleton] at same
  apply differ
  apply weight_injective (rest.length % 2 == 1) a b first second
  omega

/-- One digit completes the others to a number whose sum is divisible by ten. -/
theorem existsUnique_checkDigit (digits : List Nat) :
    ∃! d, d < 10 ∧ 10 ∣ checksum (digits ++ [d]) := by
  refine ⟨(10 - sumFrom true digits.reverse % 10) % 10, ⟨Nat.mod_lt _ (by omega), ?_⟩, ?_⟩
  · rw [checksum_concat]
    omega
  · rintro d ⟨digit, divides⟩
    rw [checksum_concat] at divides
    omega

example : checksum [4, 1, 1, 1, 1, 1, 1, 1, 1, 1, 1, 1, 1, 1, 1, 1] = 30 := by decide

end Kortex.Luhn
