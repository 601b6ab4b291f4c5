import Kortex.Library.Run

/-
This file proves when a request that is executed more than once takes effect once at most, and when a
consumer that receives its messages more than once ends as if it had received each of them once.
-/

namespace Kortex.Retry

variable {State Execution : Type} (run : State → Execution → State)

/-- The state is the one at the start, or the one after one of the executions alone. -/
def OnceAtMost (start : State) (executions : List Execution) (s : State) : Prop :=
  s = start ∨ ∃ e ∈ executions, s = run start e

variable {run} {start : State}

/-- A request whose second execution leaves or replaces what the first has done takes effect once. -/
theorem onceAtMost_of_overwrites
    (overwrites : ∀ e e', run (run start e) e' = run start e ∨ run (run start e) e' = run start e')
    (executions : List Execution) :
    OnceAtMost run start executions (Run.final run start executions) := by
  induction executions using List.reverseRecOn with
  | nil => exact Or.inl rfl
  | append_singleton front e ih =>
      rw [Run.final_append, Run.final_cons, Run.final_nil]
      have own : e ∈ front ++ [e] := List.mem_append_right _ (List.mem_singleton_self e)
      rcases ih with same | ⟨first, inside, same⟩
      · rw [same]
        exact Or.inr ⟨e, own, rfl⟩
      · rw [same]
        rcases overwrites first e with stays | replaced
        · exact Or.inr ⟨first, List.mem_append_left _ inside, stays⟩
        · exact Or.inr ⟨e, own, replaced⟩

section

variable {below : State → State → Prop} (trans : ∀ a b c, below a b → below b c → below a c)
variable (irrefl : ∀ a, ¬ below a a) (grows : ∀ s e, run s e = s ∨ below s (run s e))

include trans grows

theorem final_grows (s : State) (executions : List Execution) :
    Run.final run s executions = s ∨ below s (Run.final run s executions) := by
  induction executions generalizing s with
  | nil => exact Or.inl rfl
  | cons e rest ih =>
      rw [Run.final_cons]
      rcases grows s e with same | up
      · rw [same]
        exact ih s
      · rcases ih (run s e) with same | further
        · rw [same]
          exact Or.inr up
        · exact Or.inr (trans _ _ _ up further)

include irrefl

/-- After the first effect, the runs that have no other one are those whose executions change nothing. -/
theorem final_eq_iff (s : State) (moved : s ≠ start) (executions : List Execution) :
    Run.final run s executions = s ↔
      Run.Each run (fun s e => s = start ∨ run s e = s) s executions := by
  induction executions with
  | nil => exact ⟨fun _ => trivial, fun _ => rfl⟩
  | cons e rest ih =>
      rw [Run.final_cons]
      rcases grows s e with same | up
      · rw [same, ih]
        constructor
        · intro each
          refine ⟨Or.inr same, ?_⟩
          rwa [same]
        · intro each
          have after := each.2
          rwa [same] at after
      · constructor
        · intro final
          rcases final_grows trans grows (run s e) rest with still | further
          · rw [final] at still
            rw [← still] at up
            exact absurd up (irrefl s)
          · rw [final] at further
            exact absurd (trans _ _ _ up further) (irrefl s)
        · intro each
          rcases each.1 with back | same
          · exact absurd back moved
          · rw [same] at up
            exact absurd up (irrefl s)

variable (below) in
/-- Where every effect goes up, and the first effect does not depend on the execution, the request takes
effect once at most exactly when each execution meets the start or changes nothing. -/
theorem onceAtMost_iff_of_grows
    (level : ∀ e e', run start e ≠ start → ¬ below (run start e) (run start e'))
    (executions : List Execution) :
    OnceAtMost run start executions (Run.final run start executions) ↔
      Run.Each run (fun s e => s = start ∨ run s e = s) start executions := by
  induction executions with
  | nil => exact ⟨fun _ => trivial, fun _ => Or.inl rfl⟩
  | cons e rest ih =>
      rw [Run.final_cons]
      by_cases same : run start e = start
      · have tail : OnceAtMost run start (e :: rest) (Run.final run start rest) ↔
            OnceAtMost run start rest (Run.final run start rest) := by
          constructor
          · rintro (none | ⟨one, inside, final⟩)
            · exact Or.inl none
            · rcases List.mem_cons.mp inside with rfl | later
              · exact Or.inl (final.trans same)
              · exact Or.inr ⟨one, later, final⟩
          · exact Or.imp_right fun ⟨one, inside, final⟩ => ⟨one, List.mem_cons_of_mem _ inside, final⟩
        rw [same, tail, ih]
        constructor
        · intro each
          refine ⟨Or.inl rfl, ?_⟩
          rwa [same]
        · intro each
          have after := each.2
          rwa [same] at after
      · have up : below start (run start e) := (grows start e).resolve_left same
        have once : OnceAtMost run start (e :: rest) (Run.final run (run start e) rest) ↔
            Run.final run (run start e) rest = run start e := by
          constructor
          · intro once
            refine (final_grows trans grows (run start e) rest).resolve_right fun further => ?_
            rcases once with none | ⟨one, _, final⟩
            · rw [none] at further
              exact irrefl start (trans _ _ _ up further)
            · rw [final] at further
              exact level e one same further
          · exact fun final => Or.inr ⟨e, List.mem_cons_self, final⟩
        rw [once, final_eq_iff trans irrefl grows (run start e) same]
        exact ⟨fun each => ⟨Or.inl rfl, each⟩, fun each => each.2⟩

end

/-- Where every effect raises a measure, and every first effect raises it to the same value, the request
takes effect once at most exactly when each execution meets the start or changes nothing. -/
theorem onceAtMost_iff_of_measure {M : Type} [Preorder M] (measure : State → M)
    (raises : ∀ s e, run s e = s ∨ measure s < measure (run s e))
    (level : ∀ e e', run start e ≠ start → run start e' ≠ start →
      measure (run start e) = measure (run start e'))
    (executions : List Execution) :
    OnceAtMost run start executions (Run.final run start executions) ↔
      Run.Each run (fun s e => s = start ∨ run s e = s) start executions := by
  apply onceAtMost_iff_of_grows (fun a b => measure a < measure b)
    (fun _ _ _ => lt_trans) (fun _ => lt_irrefl _) raises
  intro e e' moved further
  by_cases same : run start e' = start
  · rw [same] at further
    exact lt_asymm further ((raises start e).resolve_left moved)
  · rw [level e e' moved same] at further
    exact lt_irrefl _ further

end Kortex.Retry

namespace Kortex.Redelivery

variable {State Message : Type}

/-- Each delivery is the next message, or one of the newest messages that have been delivered; in the
end every message has been delivered. -/
def Orderly (window : Nat) (messages : List Message) : Nat → List Message → Prop
  | n, [] => n = messages.length
  | n, m :: rest =>
      (messages[n]? = some m ∧ Orderly window messages (n + 1) rest) ∨
        ((∃ k < n, n ≤ k + window ∧ messages[k]? = some m) ∧ Orderly window messages n rest)

/-- A consumer that absorbs each redelivery of a newest message ends as after one delivery of each. -/
theorem final_of_orderly (step : State → Message → State) (start : State) (window : Nat)
    (messages : List Message)
    (absorbs : ∀ n ≤ messages.length, ∀ k < n, n ≤ k + window → ∀ m, messages[k]? = some m →
      step (Run.final step start (messages.take n)) m = Run.final step start (messages.take n))
    (deliveries : List Message) (n : Nat) (begun : n ≤ messages.length)
    (orderly : Orderly window messages n deliveries) :
    Run.final step (Run.final step start (messages.take n)) deliveries =
      Run.final step start messages := by
  induction deliveries generalizing n with
  | nil =>
      rw [Run.final_nil, show n = messages.length from orderly, List.take_length]
  | cons m rest ih =>
      rw [Run.final_cons]
      rcases orderly with ⟨next, after⟩ | ⟨⟨k, before, recent, old⟩, after⟩
      · obtain ⟨inside, rfl⟩ := List.getElem?_eq_some_iff.mp next
        have grown : Run.final step start (messages.take (n + 1)) =
            step (Run.final step start (messages.take n)) messages[n] := by
          rw [List.take_succ_eq_append_getElem inside, Run.final_append]
          rfl
        rw [← grown]
        exact ih (n + 1) inside after
      · rw [absorbs n begun k before recent m old]
        exact ih n begun after

end Kortex.Redelivery
