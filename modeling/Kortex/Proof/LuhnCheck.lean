import Kortex.Library.Luhn
import Kortex.Proof.PiiDetector

/-
This file proves that the check of a card number is the Luhn check.
-/

namespace Kortex.PiiDetector

variable {u : Unicode}

/-- This is the value of an ASCII digit. -/
def asciiDigit (c : Char) : Nat := c.toNat - '0'.toNat

theorem toNat_of_isDigit (c : Char) (digit : c.isDigit = true) : 48 ≤ c.toNat ∧ c.toNat ≤ 57 := by
  simp only [Char.isDigit, Bool.and_eq_true, decide_eq_true_eq] at digit
  exact digit

theorem asciiDigit_lt (c : Char) (digit : c.isDigit = true) : asciiDigit c < 10 := by
  have bounds := toNat_of_isDigit c digit
  change c.toNat - 48 < 10
  omega

theorem asciiDigit_injective (c d : Char) (first : c.isDigit = true) (second : d.isDigit = true)
    (same : asciiDigit c = asciiDigit d) : c = d := by
  have bounds := toNat_of_isDigit c first
  have bounds' := toNat_of_isDigit d second
  change c.toNat - 48 = d.toNat - 48 at same
  exact Char.toNat_inj.mp (by omega)

theorem digitValue_of_isDigit (standard : u.Standard) (c : Char) (digit : c.isDigit = true) :
    u.isDigit c = true ∧ digitValue u c = asciiDigit c := by
  have bounds := toNat_of_isDigit c digit
  have decimal : u.decimal c = some (asciiDigit c) := by
    rw [(standard c (by omega)).2, Unicode.ascii]
    dsimp only
    rw [if_pos digit]
    rfl
  rw [Unicode.isDigit, digitValue, decimal]
  exact ⟨rfl, rfl⟩

/-- The code doubles the digits that have an odd number of digits on their right. -/
theorem sum_luhnTerm (standard : u.Standard) (digits : Str) (all : ∀ c ∈ digits, c.isDigit = true)
    (index parity : Nat) (ends : parity = (index + digits.length) % 2) :
    (digits.mapIdx fun i => luhnTerm u parity (i + index)).sum =
      Luhn.checksum (digits.map asciiDigit) := by
  induction digits generalizing index with
  | nil => rfl
  | cons c rest ih =>
      rw [List.forall_mem_cons] at all
      rw [List.length_cons] at ends
      have later := ih all.2 (index + 1) (by rw [ends]; congr 1; omega)
      have value := (digitValue_of_isDigit standard c all.1).2
      have small := asciiDigit_lt c all.1
      have term : luhnTerm u parity (0 + index) c =
          Luhn.weight (rest.length % 2 == 1) (asciiDigit c) := by
        rw [luhnTerm, value, Nat.zero_add]
        by_cases odd : rest.length % 2 = 1
        · rw [if_pos (by omega), odd, beq_self_eq_true, Luhn.weight_doubled _ small]
        · rw [if_neg (by omega), beq_false_of_ne odd]
          rfl
      rw [List.mapIdx_cons, List.sum_cons, term, List.map_cons, Luhn.checksum_cons, List.length_map,
        Nat.add_comm]
      congr 1
      rw [← later]
      simp only [Nat.add_assoc, Nat.add_comm 1 index]

theorem luhnValid_iff (standard : u.Standard) (digits : Str) (all : ∀ c ∈ digits, c.isDigit = true) :
    luhnValid u digits = true ↔ (12 ≤ digits.length ∧ digits.length ≤ 19) ∧
      10 ∣ Luhn.checksum (digits.map asciiDigit) := by
  have accepted : digits.all u.isDigit = true := by
    rw [List.all_eq_true]
    exact fun c inside => (digitValue_of_isDigit standard c (all c inside)).1
  have total := sum_luhnTerm standard digits all 0 (digits.length % 2) (by rw [Nat.zero_add])
  simp only [Nat.add_zero] at total
  rw [luhnValid, accepted, total]
  simp only [Bool.true_and, Bool.and_eq_true, decide_eq_true_eq, beq_iff_eq, Nat.dvd_iff_mod_eq_zero]

/-- A card number with another digit in one place is not valid. -/
theorem luhnValid_replaced (standard : u.Standard) (front rest : Str) (a b : Char)
    (all : ∀ c ∈ front ++ a :: rest, c.isDigit = true) (digit : b.isDigit = true) (differ : a ≠ b)
    (valid : luhnValid u (front ++ a :: rest) = true) : luhnValid u (front ++ b :: rest) = false := by
  obtain ⟨first, others⟩ := List.forall_mem_append.mp all
  obtain ⟨own, last⟩ := List.forall_mem_cons.mp others
  have all' : ∀ c ∈ front ++ b :: rest, c.isDigit = true :=
    List.forall_mem_append.mpr ⟨first, List.forall_mem_cons.mpr ⟨digit, last⟩⟩
  have divides := ((luhnValid_iff standard _ all).mp valid).2
  have differs := Luhn.checksum_replaced (front.map asciiDigit) (rest.map asciiDigit) (asciiDigit a)
    (asciiDigit b) (asciiDigit_lt a own) (asciiDigit_lt b digit)
    fun same => differ (asciiDigit_injective a b own digit same)
  rw [← Bool.not_eq_true, luhnValid_iff standard _ all']
  rintro ⟨_, divides'⟩
  rw [List.map_append, List.map_cons] at divides divides'
  omega

theorem existsUnique_checkDigit (standard : u.Standard) (digits : Str)
    (all : ∀ c ∈ digits, c.isDigit = true) (least : 11 ≤ digits.length) (most : digits.length ≤ 18) :
    ∃! c : Char, c.isDigit = true ∧ luhnValid u (digits ++ [c]) = true := by
  have valid (c : Char) (digit : c.isDigit = true) : luhnValid u (digits ++ [c]) = true ↔
      10 ∣ Luhn.checksum (digits.map asciiDigit ++ [asciiDigit c]) := by
    have all' : ∀ c' ∈ digits ++ [c], c'.isDigit = true :=
      List.forall_mem_append.mpr ⟨all, List.forall_mem_singleton.mpr digit⟩
    rw [luhnValid_iff standard _ all', List.length_append, List.length_singleton,
      List.map_append, List.map_singleton]
    exact and_iff_right ⟨by omega, by omega⟩
  obtain ⟨d, ⟨small, divides⟩, unique⟩ := Luhn.existsUnique_checkDigit (digits.map asciiDigit)
  have spelled : (Nat.digitChar d).isDigit = true ∧ asciiDigit (Nat.digitChar d) = d := by
    interval_cases d <;> decide
  refine ⟨Nat.digitChar d, ⟨spelled.1, ?_⟩, ?_⟩
  · rwa [valid _ spelled.1, spelled.2]
  · rintro c ⟨digit, completes⟩
    have same := unique (asciiDigit c) ⟨asciiDigit_lt c digit, (valid c digit).mp completes⟩
    exact asciiDigit_injective c _ digit spelled.1 (same.trans spelled.2.symm)

/-- The check of a number of 12 to 19 ASCII digits is the Luhn check, so that it finds every single
error, and each number of one digit less has one check digit. -/
theorem luhnValid_is_luhn (u : Unicode) (standard : u.Standard) :
    (∀ digits : Str, (∀ c ∈ digits, c.isDigit = true) → 12 ≤ digits.length → digits.length ≤ 19 →
      (luhnValid u digits = true ↔ 10 ∣ Luhn.checksum (digits.map asciiDigit))) ∧
    (∀ (front rest : Str) (a b : Char), (∀ c ∈ front ++ a :: rest, c.isDigit = true) →
      b.isDigit = true → a ≠ b → luhnValid u (front ++ a :: rest) = true →
        luhnValid u (front ++ b :: rest) = false) ∧
    ∀ digits : Str, (∀ c ∈ digits, c.isDigit = true) → 11 ≤ digits.length → digits.length ≤ 18 →
      ∃! c : Char, c.isDigit = true ∧ luhnValid u (digits ++ [c]) = true := by
  refine ⟨?_, luhnValid_replaced standard, existsUnique_checkDigit standard⟩
  intro digits all least most
  rw [luhnValid_iff standard digits all]
  exact and_iff_right ⟨least, most⟩

theorem luhnValid_is_luhn_card :
    (luhnValid Unicode.ascii "4111111111111111" = true ↔
      10 ∣ Luhn.checksum ("4111111111111111".toList.map asciiDigit)) ∧
    luhnValid Unicode.ascii "4111111112111111" = false ∧
    ∃! c : Char, c.isDigit = true ∧ luhnValid Unicode.ascii ("411111111111111".toList ++ [c]) = true := by
  have law := luhnValid_is_luhn Unicode.ascii fun _ _ => ⟨rfl, rfl⟩
  refine ⟨law.1 _ (List.all_eq_true.mp (by decide)) (by decide) (by decide), ?_,
    law.2.2 _ (List.all_eq_true.mp (by decide)) (by decide) (by decide)⟩
  exact law.2.1 "411111111" "111111" '1' '2' (List.all_eq_true.mp (by decide)) (by decide) (by decide)
    (by decide +kernel)

end Kortex.PiiDetector
