import Kortex.Library.Run
import Mathlib.Tactic

/-
This file gives the simulation rule for machines that answer each of their inputs, the unwinding rule for
machines that observers share, and the frame rules for a state of cells in which each action changes one cell.
-/

namespace Kortex.Machine

variable {State State' Input Output : Type}

/-- These are the answers of a machine to its inputs. -/
def outputs (act : State → Input → Output × State) : State → List Input → List Output
  | _, [] => []
  | s, input :: rest => (act s input).1 :: outputs act (act s input).2 rest

/-- Two machines whose related states give equal answers and related states give the same answers. -/
theorem outputs_eq_of_simulation {act : State → Input → Output × State}
    {act' : State' → Input → Output × State'} (related : State → State' → Prop)
    (admits : State → Input → Prop)
    (simulates : ∀ s s' input, related s s' → admits s input →
      (act s input).1 = (act' s' input).1 ∧ related (act s input).2 (act' s' input).2)
    {s : State} {s' : State'} (start : related s s') {inputs : List Input}
    (admitted : Run.Each (fun s input => (act s input).2) admits s inputs) :
    outputs act s inputs = outputs act' s' inputs := by
  induction inputs generalizing s s' with
  | nil => rfl
  | cons input rest ih =>
      obtain ⟨same, next⟩ := simulates s s' input start admitted.1
      rw [outputs, outputs, same, ih next admitted.2]

/-- These are the answers of a shared machine to the inputs of one observer. -/
def seen (act : State → Input → Output × State) (own : Input → Bool) : State → List Input → List Output
  | _, [] => []
  | s, input :: rest =>
      if own input then (act s input).1 :: seen act own (act s input).2 rest
      else seen act own (act s input).2 rest

/-- States that look the same to an observer answer its inputs in the same way and look the same afterwards,
and the inputs of others change nothing that it sees. -/
structure Unwinding (act : State → Input → Output × State) (own : Input → Bool)
    (alike : State → State → Prop) : Prop where
  answers : ∀ s s' input, alike s s' → own input = true → (act s input).1 = (act s' input).1
  keeps : ∀ s s' input, alike s s' → own input = true → alike (act s input).2 (act s' input).2
  hides : ∀ s s' input, alike s s' → own input = false → alike (act s input).2 s'

/-- An observer of a shared machine sees what it would see if it were alone. -/
theorem Unwinding.seen_eq {act : State → Input → Output × State} {own : Input → Bool}
    {alike : State → State → Prop} (unwinding : Unwinding act own alike) {s s' : State}
    (start : alike s s') (inputs : List Input) :
    seen act own s inputs = outputs act s' (inputs.filter own) := by
  induction inputs generalizing s s' with
  | nil => rfl
  | cons input rest ih =>
      cases mine : own input with
      | true =>
          rw [seen, mine, if_pos rfl, List.filter_cons_of_pos mine, outputs,
            unwinding.answers s s' input start mine, ih (unwinding.keeps s s' input start mine)]
      | false =>
          have others : ¬ own input = true := by rw [mine]; exact Bool.false_ne_true
          rw [seen, if_neg others, List.filter_cons_of_neg others,
            ih (unwinding.hides s s' input start mine)]

end Kortex.Machine

namespace Kortex

variable {State Item Key Cell : Type}

/-- While the invariant holds, an action changes the cell of its key and no other one. -/
structure Cells (valid : State → Prop) (cell : State → Key → Cell) (act : State → Item → State)
    (key : Item → Key) (effect : Item → Cell → Cell) : Prop where
  keeps : ∀ s item, valid s → valid (act s item)
  own : ∀ s item, valid s → cell (act s item) (key item) = effect item (cell s (key item))
  other : ∀ s item k, valid s → k ≠ key item → cell (act s item) k = cell s k

namespace Cells

variable {valid : State → Prop} {cell : State → Key → Cell} {act : State → Item → State}
  {key : Item → Key} {effect : Item → Cell → Cell}

theorem valid_foldl (cells : Cells valid cell act key effect) (items : List Item) (s : State)
    (start : valid s) : valid (items.foldl act s) := by
  induction items generalizing s with
  | nil => exact start
  | cons item rest ih => exact ih (act s item) (cells.keeps s item start)

/-- The cells of other keys are unchanged. -/
theorem foldl_other (cells : Cells valid cell act key effect) (items : List Item) (s : State)
    (start : valid s) (k : Key) (absent : ∀ item ∈ items, k ≠ key item) :
    cell (items.foldl act s) k = cell s k := by
  induction items generalizing s with
  | nil => rfl
  | cons item rest ih =>
      rw [List.forall_mem_cons] at absent
      rw [List.foldl_cons, ih (act s item) (cells.keeps s item start) absent.2]
      exact cells.other s item k start absent.1

/-- Where the keys are distinct, each cell is what its own action makes of it. -/
theorem foldl_own (cells : Cells valid cell act key effect) (items : List Item)
    (distinct : (items.map key).Nodup) (s : State) (start : valid s) (item : Item)
    (inside : item ∈ items) :
    cell (items.foldl act s) (key item) = effect item (cell s (key item)) := by
  induction items generalizing s with
  | nil => exact absurd inside List.not_mem_nil
  | cons head rest ih =>
      rw [List.map_cons, List.nodup_cons] at distinct
      rw [List.foldl_cons]
      rcases List.mem_cons.mp inside with rfl | later
      · have absent (other : Item) (present : other ∈ rest) : key item ≠ key other := by
          intro same
          exact distinct.1 (List.mem_map.mpr ⟨other, present, same.symm⟩)
        rw [cells.foldl_other rest (act s item) (cells.keeps s item start) (key item) absent]
        exact cells.own s item start
      · have apart : key item ≠ key head := by
          intro same
          exact distinct.1 (List.mem_map.mpr ⟨item, later, same⟩)
        rw [ih distinct.2 (act s head) (cells.keeps s head start) later]
        rw [cells.other s head (key item) start apart]

end Cells
end Kortex
