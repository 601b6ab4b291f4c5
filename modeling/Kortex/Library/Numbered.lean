import Mathlib.Tactic

/-
This file gives the loops that number their elements and stop at the first one that fails.
-/

namespace Kortex

variable {A B State : Type}

/-- Each element of the list is mapped under its number, and all of them must succeed. -/
def eachFrom (f : Nat → A → Option B) : Nat → List A → Option (List B)
  | _, [] => some []
  | n, a :: rest => do return (← f n a) :: (← eachFrom f (n + 1) rest)

variable {f : Nat → A → Option B}

theorem eachFrom_cons_eq_some (n : Nat) (a : A) (rest : List A) (results : List B) :
    eachFrom f n (a :: rest) = some results ↔
      ∃ b tail, f n a = some b ∧ eachFrom f (n + 1) rest = some tail ∧ results = b :: tail := by
  simp only [eachFrom, bind, pure, Option.bind_eq_some_iff, Option.some.injEq]
  constructor
  · rintro ⟨b, first, tail, later, equal⟩
    exact ⟨b, tail, first, later, equal.symm⟩
  · rintro ⟨b, tail, first, later, equal⟩
    exact ⟨b, first, tail, later, equal.symm⟩

/-- What is asked of each numbered element is asked of the first one and of the later ones. -/
theorem forall_numbered_cons (P : Nat → A → Prop) (n : Nat) (a : A) (rest : List A) :
    (∀ i x, (a :: rest)[i]? = some x → P (n + i) x) ↔
      P n a ∧ ∀ i x, rest[i]? = some x → P (n + 1 + i) x := by
  constructor
  · intro all
    refine ⟨all 0 a rfl, fun i x found => ?_⟩
    have later := all (i + 1) x found
    rwa [Nat.add_comm i 1, ← Nat.add_assoc] at later
  · rintro ⟨first, later⟩ i x found
    cases i with
    | zero => exact Option.some.inj found ▸ first
    | succ i =>
        have own := later i x found
        rwa [Nat.add_assoc, Nat.add_comm 1 i] at own

theorem eachFrom_isSome (n : Nat) (l : List A) :
    (∃ results, eachFrom f n l = some results) ↔
      ∀ i a, l[i]? = some a → ∃ b, f (n + i) a = some b := by
  induction l generalizing n with
  | nil => exact iff_of_true ⟨[], rfl⟩ fun i a found => absurd found (by simp)
  | cons a rest ih =>
      rw [forall_numbered_cons (fun i x => ∃ b, f i x = some b), ← ih (n + 1)]
      constructor
      · rintro ⟨results, done⟩
        obtain ⟨b, tail, first, later, _⟩ := (eachFrom_cons_eq_some n a rest results).mp done
        exact ⟨⟨b, first⟩, tail, later⟩
      · rintro ⟨⟨b, first⟩, tail, later⟩
        exact ⟨b :: tail, (eachFrom_cons_eq_some n a rest _).mpr ⟨b, tail, first, later, rfl⟩⟩

/-- Each result is the one of the element at its place. -/
theorem eachFrom_get (n : Nat) (l : List A) (results : List B) (done : eachFrom f n l = some results)
    (i : Nat) (a : A) (found : l[i]? = some a) : ∃ b, f (n + i) a = some b ∧ results[i]? = some b := by
  induction l generalizing n results i with
  | nil => exact absurd found (by simp)
  | cons head rest ih =>
      obtain ⟨b, tail, first, later, rfl⟩ := (eachFrom_cons_eq_some n head rest results).mp done
      cases i with
      | zero =>
          obtain rfl : head = a := Option.some.inj found
          exact ⟨b, first, rfl⟩
      | succ i =>
          obtain ⟨own, given, place⟩ := ih (n + 1) tail later i found
          rw [Nat.add_assoc, Nat.add_comm 1 i] at given
          exact ⟨own, given, place⟩

/-- Where each result names its element, the results name the list. -/
theorem eachFrom_map {C : Type} (name : B → C) (nameOf : A → C)
    (named : ∀ n a b, f n a = some b → name b = nameOf a) (n : Nat) (l : List A) (results : List B)
    (done : eachFrom f n l = some results) : results.map name = l.map nameOf := by
  induction l generalizing n results with
  | nil =>
      obtain rfl : [] = results := Option.some.inj done
      rfl
  | cons a rest ih =>
      obtain ⟨b, tail, first, later, rfl⟩ := (eachFrom_cons_eq_some n a rest results).mp done
      rw [List.map_cons, List.map_cons, named n a b first, ih (n + 1) tail later]

/-- A loop that acts on each result as it comes acts on all of them or fails. -/
theorem loop_eq_foldl (act : State → B → State) (loop : Nat → State → List A → Option State)
    (nil : ∀ n s, loop n s [] = some s)
    (cons : ∀ n s a rest,
      loop n s (a :: rest) = (f n a).bind fun b => loop (n + 1) (act s b) rest)
    (n : Nat) (s : State) (l : List A) :
    loop n s l = (eachFrom f n l).map fun results => results.foldl act s := by
  induction l generalizing n s with
  | nil => exact nil n s
  | cons a rest ih =>
      rw [cons, eachFrom]
      cases f n a with
      | none => rfl
      | some b =>
          change loop (n + 1) (act s b) rest = _
          rw [ih (n + 1) (act s b)]
          cases eachFrom f (n + 1) rest <;> rfl

end Kortex
