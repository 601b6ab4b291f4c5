import Mathlib.Tactic

/-
This file gives the induction rules for the runs of a deterministic system, and the potential method for
what a run spends.
-/

namespace Kortex.Run

variable {State Input : Type} (step : State → Input → State)

/-- The run feeds its inputs to the step function one after the other. -/
def final (s : State) (inputs : List Input) : State := inputs.foldl step s

/-- Every state of the run has the property. -/
def Always (P : State → Prop) : State → List Input → Prop
  | s, [] => P s
  | s, input :: rest => P s ∧ Always P (step s input) rest

/-- Every step of the run has the property in the state it starts from. -/
def Each (Q : State → Input → Prop) : State → List Input → Prop
  | _, [] => True
  | s, input :: rest => Q s input ∧ Each Q (step s input) rest

variable {step}

@[simp] theorem final_nil (s : State) : final step s [] = s := rfl

@[simp] theorem final_cons (s : State) (input : Input) (rest : List Input) :
    final step s (input :: rest) = final step (step s input) rest := rfl

theorem final_append (s : State) (first second : List Input) :
    final step s (first ++ second) = final step (final step s first) second :=
  List.foldl_append

theorem Always.start {P : State → Prop} {s : State} {inputs : List Input}
    (always : Always step P s inputs) : P s := by
  cases inputs with
  | nil => exact always
  | cons input rest => exact always.1

theorem Always.final {P : State → Prop} {s : State} {inputs : List Input}
    (always : Always step P s inputs) : P (final step s inputs) := by
  induction inputs generalizing s with
  | nil => exact always
  | cons input rest ih => exact ih always.2

theorem Always.imp {P P' : State → Prop} {s : State} {inputs : List Input}
    (weaker : ∀ s, P s → P' s) (always : Always step P s inputs) : Always step P' s inputs := by
  induction inputs generalizing s with
  | nil => exact weaker s always
  | cons input rest ih => exact ⟨weaker s always.1, ih always.2⟩

theorem Always.and {P P' : State → Prop} {s : State} {inputs : List Input}
    (first : Always step P s inputs) (second : Always step P' s inputs) :
    Always step (fun s => P s ∧ P' s) s inputs := by
  induction inputs generalizing s with
  | nil => exact ⟨first, second⟩
  | cons input rest ih => exact ⟨⟨first.1, second.1⟩, ih first.2 second.2⟩

/-- A property that every admitted step preserves holds along every admitted run. -/
theorem always_of_each {P : State → Prop} {Q : State → Input → Prop}
    (preserved : ∀ s input, P s → Q s input → P (step s input))
    {s : State} {inputs : List Input} (start : P s) (each : Each step Q s inputs) :
    Always step P s inputs := by
  induction inputs generalizing s with
  | nil => exact start
  | cons input rest ih => exact ⟨start, ih (preserved s input start each.1) each.2⟩

/-- A property that every step preserves holds along every run. -/
theorem always_of_step {P : State → Prop} (preserved : ∀ s input, P s → P (step s input))
    {s : State} (inputs : List Input) (start : P s) : Always step P s inputs := by
  induction inputs generalizing s with
  | nil => exact start
  | cons input rest ih => exact ⟨start, ih (preserved s input start)⟩

/-- Under an invariant, the steps of a run inherit what each step gives. -/
theorem Each.imp {P : State → Prop} {Q R : State → Input → Prop} {s : State}
    {inputs : List Input} (always : Always step P s inputs)
    (gives : ∀ s input, P s → P (step s input) → Q s input → R s input)
    (each : Each step Q s inputs) : Each step R s inputs := by
  induction inputs generalizing s with
  | nil => trivial
  | cons input rest ih =>
      exact ⟨gives s input always.1 always.2.start each.1, ih always.2 each.2⟩

theorem each_of_forall {R : Input → Prop} {s : State} {inputs : List Input}
    (all : ∀ input ∈ inputs, R input) : Each step (fun _ input => R input) s inputs := by
  induction inputs generalizing s with
  | nil => trivial
  | cons input rest ih =>
      rw [List.forall_mem_cons] at all
      exact ⟨all.1, ih all.2⟩

/-- What all inputs of a run have is a condition on each of its steps. -/
theorem Each.and_forall {Q : State → Input → Prop} {R : Input → Prop} {s : State}
    {inputs : List Input} (each : Each step Q s inputs) (all : ∀ input ∈ inputs, R input) :
    Each step (fun s input => R input ∧ Q s input) s inputs := by
  induction inputs generalizing s with
  | nil => trivial
  | cons input rest ih =>
      rw [List.forall_mem_cons] at all
      exact ⟨⟨all.1, each.1⟩, ih each.2 all.2⟩

/-- Two properties of all steps are one. -/
theorem each_and {Q R : State → Input → Prop} {s : State} (inputs : List Input) :
    Each step Q s inputs ∧ Each step R s inputs ↔
      Each step (fun s input => Q s input ∧ R s input) s inputs := by
  induction inputs generalizing s with
  | nil => exact iff_of_true ⟨trivial, trivial⟩ trivial
  | cons input rest ih =>
      simp only [Each, ← ih]
      exact and_and_and_comm

theorem each_append {Q : State → Input → Prop} {s : State} (first second : List Input) :
    Each step Q s (first ++ second) ↔ Each step Q s first ∧ Each step Q (final step s first) second := by
  induction first generalizing s with
  | nil => exact (and_iff_right trivial).symm
  | cons input rest ih => simp only [List.cons_append, Each, final_cons, ih, and_assoc]

/-- A property holds along an admitted run exactly when each step meets a condition, where the steps
that meet it keep a stronger invariant. -/
theorem always_iff_each_of_admitted {P S : State → Prop} {Q R : State → Input → Prop} {s : State}
    (inputs : List Input) (weaker : ∀ s, S s → P s)
    (needs : ∀ s, ∀ input ∈ inputs, S s → P (step s input) → Q s input)
    (keeps : ∀ s, ∀ input ∈ inputs, S s → R s input → Q s input → S (step s input)) (start : S s)
    (admitted : Each step R s inputs) : Always step P s inputs ↔ Each step Q s inputs := by
  induction inputs generalizing s with
  | nil => exact ⟨fun _ => trivial, fun _ => weaker s start⟩
  | cons input rest ih =>
      have own := List.mem_cons_self (a := input) (l := rest)
      have tail (start' : S (step s input)) := ih
        (fun s input inside => needs s input (List.mem_cons_of_mem _ inside))
        (fun s input inside => keeps s input (List.mem_cons_of_mem _ inside)) start' admitted.2
      constructor
      · rintro ⟨_, after⟩
        have asked := needs s input own start after.start
        exact ⟨asked, (tail (keeps s input own start admitted.1 asked)).mp after⟩
      · rintro ⟨asked, after⟩
        exact ⟨weaker s start, (tail (keeps s input own start admitted.1 asked)).mpr after⟩

theorem each_true {s : State} (inputs : List Input) : Each step (fun _ _ => True) s inputs := by
  induction inputs generalizing s with
  | nil => trivial
  | cons input rest ih => exact ⟨trivial, ih⟩

/-- A property holds along a run exactly when each step meets a condition, where the steps that meet
it keep a stronger invariant. -/
theorem always_iff_each_of_strong {P S : State → Prop} {Q : State → Input → Prop} {s : State}
    (inputs : List Input) (weaker : ∀ s, S s → P s)
    (needs : ∀ s, ∀ input ∈ inputs, S s → P (step s input) → Q s input)
    (keeps : ∀ s, ∀ input ∈ inputs, S s → Q s input → S (step s input)) (start : S s) :
    Always step P s inputs ↔ Each step Q s inputs :=
  always_iff_each_of_admitted inputs weaker needs
    (fun s input inside holds _ => keeps s input inside holds) start (each_true inputs)

/-- The runs along which an invariant survives are those whose steps keep it. -/
theorem always_iff_each {P : State → Prop} {Q : State → Input → Prop} {s : State}
    (inputs : List Input)
    (exact_step : ∀ s, ∀ input ∈ inputs, P s → (P (step s input) ↔ Q s input)) (start : P s) :
    Always step P s inputs ↔ Each step Q s inputs :=
  always_iff_each_of_strong inputs (fun _ holds => holds)
    (fun s input inside holds => (exact_step s input inside holds).mp)
    (fun s input inside holds => (exact_step s input inside holds).mpr) start

/-- Two step properties that agree under an invariant agree along every run that keeps it. -/
theorem each_iff_each {P : State → Prop} {Q R : State → Input → Prop} {s : State}
    {inputs : List Input} (always : Always step P s inputs)
    (agree : ∀ s input, P s → P (step s input) → (Q s input ↔ R s input)) :
    Each step Q s inputs ↔ Each step R s inputs :=
  ⟨Each.imp always fun s input holds next => (agree s input holds next).mp,
    Each.imp always fun s input holds next => (agree s input holds next).mpr⟩

/-- Where every step is of a kind, what the steps of this kind ask of their inputs is asked of all. -/
theorem each_imp_iff_forall {Q : State → Input → Prop} {R : Input → Prop} {s : State}
    {inputs : List Input} (each : Each step Q s inputs) :
    Each step (fun s input => Q s input → R input) s inputs ↔ ∀ input ∈ inputs, R input := by
  induction inputs generalizing s with
  | nil => exact ⟨fun _ _ inside => absurd inside List.not_mem_nil, fun _ => trivial⟩
  | cons input rest ih =>
      rw [List.forall_mem_cons, ← ih each.2]
      exact ⟨fun asked => ⟨asked.1 each.1, asked.2⟩, fun asked => ⟨fun _ => asked.1, asked.2⟩⟩

end Kortex.Run

namespace Kortex.Run

variable {State Input A : Type} [AddCommGroup A] [LinearOrder A] [IsOrderedAddMonoid A]
  (step : State → Input → State)

/-- This is the sum over the steps of a run. -/
def total (spent : State → Input → A) : State → List Input → A
  | _, [] => 0
  | s, input :: rest => spent s input + total spent (step s input) rest

/-- A run spends at most its income and the potential that it starts with. -/
theorem total_le_of_potential (valid : State → Prop) (spent income : State → Input → A)
    (potential : State → A) (keeps : ∀ s input, valid s → valid (step s input))
    (nonneg : ∀ s, valid s → 0 ≤ potential s)
    (pays : ∀ s input, valid s →
      spent s input + potential (step s input) ≤ potential s + income s input)
    (s : State) (start : valid s) (inputs : List Input) :
    total step spent s inputs ≤ potential s + total step income s inputs := by
  induction inputs generalizing s with
  | nil => simpa only [total, add_zero] using nonneg s start
  | cons input rest ih =>
      have later := ih (step s input) (keeps s input start)
      have own := pays s input start
      calc total step spent s (input :: rest)
          = spent s input + total step spent (step s input) rest := rfl
        _ ≤ spent s input + (potential (step s input) + total step income (step s input) rest) := by
            gcongr
        _ = spent s input + potential (step s input) + total step income (step s input) rest := by
            rw [add_assoc]
        _ ≤ potential s + income s input + total step income (step s input) rest := by
            gcongr
        _ = potential s + total step income s (input :: rest) := by
            rw [total, add_assoc]

end Kortex.Run
