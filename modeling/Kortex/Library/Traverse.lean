import Mathlib.Data.List.Forall2
import Mathlib.Tactic

/-
This file gives the rules for a loop over a list that stops at its first exception.
-/

namespace Kortex.Traverse

variable {A B E : Type} {f : A → Except E B}

theorem mapM_cons (a : A) (rest : List A) : (a :: rest).mapM f =
    match f a with
    | .error e => .error e
    | .ok b => match rest.mapM f with
      | .error e => .error e
      | .ok results => .ok (b :: results) := by
  rw [List.mapM_cons]
  cases f a with
  | error e => rfl
  | ok b => cases rest.mapM f <;> rfl

/-- The loop returns when every element gives its result. -/
theorem mapM_eq_ok_iff (items : List A) (results : List B) :
    items.mapM f = .ok results ↔ List.Forall₂ (fun a b => f a = .ok b) items results := by
  induction items generalizing results with
  | nil =>
      rw [List.mapM_nil, List.forall₂_nil_left_iff]
      exact ⟨fun same => (Except.ok.inj same).symm, fun same => by rw [same]; rfl⟩
  | cons a rest ih =>
      rw [mapM_cons, List.forall₂_cons_left_iff]
      cases first : f a with
      | error e =>
          constructor
          · intro raised
            exact absurd raised (by simp)
          · rintro ⟨b, results', given, _⟩
            exact absurd given (by simp)
      | ok b =>
          cases later : rest.mapM f with
          | error e =>
              constructor
              · intro raised
                exact absurd raised (by simp)
              · rintro ⟨b', results', _, all, _⟩
                rw [(ih results').mpr all] at later
                exact absurd later (by simp)
          | ok results' =>
              simp only [Except.ok.injEq]
              constructor
              · rintro rfl
                exact ⟨b, results', rfl, (ih results').mp later, rfl⟩
              · rintro ⟨b', results'', same, all, whole⟩
                have tails := (ih results'').mpr all
                rw [later, Except.ok.injEq] at tails
                rw [whole, same, tails]

/-- The first element to be found is the head, or the first one behind a head that is passed. -/
theorem exists_split_cons (Passed Found : A → Prop) (a : A) (rest : List A) :
    (∃ front x back, a :: rest = front ++ x :: back ∧ (∀ b ∈ front, Passed b) ∧ Found x) ↔
      Found a ∨ Passed a ∧
        ∃ front x back, rest = front ++ x :: back ∧ (∀ b ∈ front, Passed b) ∧ Found x := by
  constructor
  · rintro ⟨front, x, back, whole, passed, found⟩
    cases front with
    | nil =>
        obtain ⟨rfl, _⟩ := List.cons.inj whole
        exact Or.inl found
    | cons c front =>
        obtain ⟨rfl, tail⟩ := List.cons.inj whole
        rw [List.forall_mem_cons] at passed
        exact Or.inr ⟨passed.1, front, x, back, tail, passed.2, found⟩
  · rintro (found | ⟨own, front, x, back, rfl, passed, found⟩)
    · exact ⟨[], a, rest, rfl, fun _ inside => absurd inside List.not_mem_nil, found⟩
    · exact ⟨a :: front, x, back, rfl, List.forall_mem_cons.mpr ⟨own, passed⟩, found⟩

/-- The loop stops at the first element that raises. -/
theorem mapM_eq_error_iff (items : List A) (e : E) :
    items.mapM f = .error e ↔ ∃ front a back, items = front ++ a :: back ∧
      (∀ b ∈ front, ∃ result, f b = .ok result) ∧ f a = .error e := by
  induction items with
  | nil =>
      constructor
      · intro raised
        exact absurd raised (by simp [pure, Except.pure])
      · rintro ⟨front, a, back, whole, _⟩
        exact absurd whole (by simp)
  | cons a rest ih =>
      rw [mapM_cons, exists_split_cons, ← ih]
      cases first : f a with
      | error e' => simp
      | ok b => cases rest.mapM f <;> simp

theorem exists_mapM_iff (items : List A) :
    (∃ results, items.mapM f = .ok results) ↔ ∀ a ∈ items, ∃ result, f a = .ok result := by
  constructor
  · rintro ⟨results, done⟩ a inside
    obtain ⟨k, small, rfl⟩ := List.mem_iff_getElem.mp inside
    have all := (mapM_eq_ok_iff items results).mp done
    exact ⟨_, all.get small (all.length_eq ▸ small)⟩
  · intro fine
    cases done : items.mapM f with
    | ok results => exact ⟨results, rfl⟩
    | error e =>
        obtain ⟨front, a, back, whole, _, raised⟩ := (mapM_eq_error_iff items e).mp done
        obtain ⟨result, given⟩ := fine a (by rw [whole]; simp)
        rw [raised] at given
        exact absurd given (by simp)

theorem length_of_mapM {items : List A} {results : List B} (done : items.mapM f = .ok results) :
    items.length = results.length := ((mapM_eq_ok_iff items results).mp done).length_eq

theorem getElem_of_mapM {items : List A} {results : List B} (done : items.mapM f = .ok results)
    (k : Nat) (small : k < items.length) (small' : k < results.length) :
    f items[k] = .ok results[k] := ((mapM_eq_ok_iff items results).mp done).get small small'

end Kortex.Traverse
