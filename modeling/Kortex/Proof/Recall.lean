import Kortex.Model.Recall
import Kortex.Proof.AgentLoop

/-
This file proves when recall returns a bundle for what its planner answers.
-/

namespace Kortex

namespace AgentLoop

/-- These are the hits of a search step, where the embedder does not fail. -/
def stepHits (loop : Loop) (step : PlanStep) : List HybridSearchHit :=
  let search (query : Str) (topK : Nat) (vector : Option (List PyFloat)) :=
    Retrieval.hybridSearch loop.engine loop.settings loop.principal loop.db
      { query := query, queryVector := vector, scopes := loop.scopes
        maxSensitivity := loop.principal.maxSensitivity, limit := topK }
  match step with
  | .semanticSearch query topK => search query topK (loop.embedder.bind fun embed => embed query)
  | .keywordSearch query topK => search query topK none
  | _ => []

def Stops (step : PlanStep) : Prop := ∃ reason, step = .stopAndAnswer reason

/-- The loop, which has found nothing yet, does not refuse the next step. -/
structure Goes (loop : Loop) (hops : Nat) : Prop where
  headroom : loop.headroom hops = true
  hops : hops < loop.settings.retrievalMaxHops
  room : 0 < loop.settings.retrievalMaxCandidates

/-- The loop reaches the step with the number if the steps before it find nothing. -/
structure Reaches (loop : Loop) (hops : Nat) (steps : List PlanStep) (n : Nat) : Prop where
  goes : ∀ i ≤ n, Goes loop (hops + i)
  unstopped : ∀ step ∈ steps.take n, ¬ Stops step

/-- No step that the loop reaches finds a memory. -/
def FindsNothing (loop : Loop) (hops : Nat) (steps : List PlanStep) : Prop :=
  ∀ n step, steps[n]? = some step → Reaches loop hops steps n → stepHits loop step = []

variable {loop : Loop} {s : LoopState}

theorem reaches_zero (hops : Nat) (steps : List PlanStep) :
    Reaches loop hops steps 0 ↔ Goes loop hops := by
  constructor
  · intro reaches
    exact reaches.goes 0 (Nat.le_refl 0)
  · intro goes
    refine ⟨?_, fun step inside => absurd inside (by simp)⟩
    intro i first
    rw [Nat.le_zero.mp first]
    exact goes

theorem reaches_succ (hops : Nat) (step : PlanStep) (rest : List PlanStep) (n : Nat) :
    Reaches loop hops (step :: rest) (n + 1) ↔
      Goes loop hops ∧ ¬ Stops step ∧ Reaches loop (hops + 1) rest n := by
  constructor
  · intro reaches
    refine ⟨reaches.goes 0 (by omega), reaches.unstopped step (by simp), ?_, ?_⟩
    · intro i before
      have goes := reaches.goes (i + 1) (by omega)
      rwa [show hops + (i + 1) = hops + 1 + i by omega] at goes
    · intro other inside
      exact reaches.unstopped other (by rw [List.take_succ_cons]; exact List.mem_cons_of_mem _ inside)
  · intro ⟨first, unstopped, later⟩
    constructor
    · intro i before
      cases i with
      | zero => exact first
      | succ i =>
          rw [show hops + (i + 1) = hops + 1 + i by omega]
          exact later.goes i (by omega)
    · intro other inside
      rw [List.take_succ_cons] at inside
      rcases List.mem_cons.mp inside with rfl | inside
      · exact unstopped
      · exact later.unstopped other inside

theorem findsNothing_cons (hops : Nat) (step : PlanStep) (rest : List PlanStep) :
    FindsNothing loop hops (step :: rest) ↔ (Goes loop hops →
      stepHits loop step = [] ∧ (¬ Stops step → FindsNothing loop (hops + 1) rest)) := by
  constructor
  · intro nothing goes
    refine ⟨nothing 0 step rfl ((reaches_zero hops _).mpr goes), ?_⟩
    intro unstopped n other found reaches
    exact nothing (n + 1) other found ((reaches_succ hops step rest n).mpr ⟨goes, unstopped, reaches⟩)
  · intro nothing n other found reaches
    cases n with
    | zero =>
        obtain rfl := Option.some.inj found
        exact (nothing ((reaches_zero hops _).mp reaches)).1
    | succ n =>
        obtain ⟨goes, unstopped, later⟩ := (reaches_succ hops step rest n).mp reaches
        exact (nothing goes).2 unstopped n other found later

theorem refusal_of_empty (empty : s.seen = []) : refusal loop s = none ↔ Goes loop s.hops := by
  rw [refusal, empty]
  constructor
  · intro accepted
    split at accepted
    · exact absurd accepted (by simp)
    · rename_i headroom
      split at accepted
      · exact absurd accepted (by simp)
      · split at accepted
        · exact absurd accepted (by simp)
        · rename_i hops room
          exact ⟨by simpa using headroom, by omega, by simpa [Nat.pos_iff_ne_zero] using room⟩
  · intro goes
    rw [goes.headroom, if_neg (by simp), if_neg (by have := goes.hops; omega),
      if_neg (by have := goes.room; rw [List.length_nil]; omega)]

theorem expandLinks_nil (p : Principal) (db : Database) (types : List MemoryLinkType) (depth : Nat) :
    expandLinks p db types depth [] [] = [] := by
  cases depth with
  | zero => rfl
  | succ depth => rfl

/-- A step that is executed before anything is found collects its own hits. -/
theorem execute_of_empty (empty : s.seen = []) (running : s.stopped = none)
    (embedding : s.embedding = true)
    (steady : ∀ embed, loop.embedder = some embed → ∀ query, (embed query).isSome = true)
    (step : PlanStep) :
    (execute loop s step).seen = (stepHits loop step).foldl ingest [] ∧
      (execute loop s step).hops = s.hops ∧ (execute loop s step).embedding = true ∧
      ((execute loop s step).stopped = none ↔ ¬ Stops step) := by
  cases step with
  | stopAndAnswer reason => exact ⟨empty, rfl, embedding, by simp [execute, Stops]⟩
  | timeFilter after before => exact ⟨empty, rfl, embedding, by simp [execute, running, Stops]⟩
  | linkExpand types maxDepth =>
      refine ⟨?_, rfl, embedding, by simp [execute, running, Stops]⟩
      show expandLinks loop.principal loop.db types maxDepth s.seen (keys s.seen) = []
      rw [empty]
      exact expandLinks_nil _ _ _ _
  | keywordSearch query topK =>
      refine ⟨?_, rfl, embedding, by simp [execute, searchStep, running, Stops]⟩
      simp only [execute, searchStep, stepHits, empty]
  | semanticSearch query topK =>
      simp only [execute, embedding, if_true]
      cases found : loop.embedder with
      | none =>
          refine ⟨?_, rfl, embedding, by simp [searchStep, running, Stops]⟩
          simp only [searchStep, stepHits, empty, found, Option.bind_none]
      | some embed =>
          obtain ⟨vector, embedded⟩ := Option.isSome_iff_exists.mp (steady embed found query)
          simp only [embedded]
          refine ⟨?_, rfl, embedding, by simp [searchStep, running, Stops]⟩
          simp only [searchStep, stepHits, empty, found, Option.bind_some, embedded]

theorem rounds_of_stopped (stopped : s.stopped ≠ none) (steps : List PlanStep) :
    steps.foldl (round loop) s = s := by
  induction steps with
  | nil => rfl
  | cons step rest ih =>
      have still : round loop s step = s := by
        rw [round, if_pos (by rw [Option.isSome_iff_ne_none]; exact stopped)]
      rw [List.foldl_cons, still, ih]

theorem ingests_ne_nil (hits : List HybridSearchHit) (some : hits ≠ []) : hits.foldl ingest [] ≠ [] := by
  obtain ⟨hit, rest, rfl⟩ := List.exists_cons_of_ne_nil some
  have present : hit.memoryId ∈ keys ((hit :: rest).foldl ingest []) :=
    (mem_keys_ingests (hit :: rest) hit.memoryId).mpr (Or.inl ⟨hit, List.mem_cons_self, rfl⟩)
  intro none
  rw [none] at present
  exact absurd present List.not_mem_nil

/-- What was collected stays collected. -/
theorem seen_ne_nil (collected : Collected loop.principal loop.db s.seen) (some : s.seen ≠ [])
    (steps : List PlanStep) : (steps.foldl (round loop) s).seen ≠ [] := by
  obtain ⟨entry, rest, same⟩ := List.exists_cons_of_ne_nil some
  have kept : Run.Always (round loop) (fun s' => Collected loop.principal loop.db s'.seen ∧
      entry.1 ∈ keys s'.seen) s steps :=
    Run.always_of_step (fun s' step holds => ⟨(round_spec holds.1 step).1,
      (round_spec holds.1 step).2.1 entry.1 holds.2⟩) steps ⟨collected, by simp [keys, same]⟩
  intro none
  have present := kept.final.2
  rw [Run.final, none] at present
  exact absurd present List.not_mem_nil

/-- The loop ends with nothing exactly when no step that it reaches finds a memory. -/
theorem seen_rounds_iff
    (steady : ∀ embed, loop.embedder = some embed → ∀ query, (embed query).isSome = true)
    (empty : s.seen = []) (running : s.stopped = none) (embedding : s.embedding = true)
    (steps : List PlanStep) :
    (steps.foldl (round loop) s).seen = [] ↔ FindsNothing loop s.hops steps := by
  induction steps generalizing s with
  | nil => exact iff_of_true empty fun n step found => absurd found (by simp)
  | cons step rest ih =>
      rw [List.foldl_cons, findsNothing_cons]
      by_cases goes : Goes loop s.hops
      · rw [round_of_running step running ((refusal_of_empty empty).mpr goes)]
        obtain ⟨seen, hops, still, ends⟩ :=
          execute_of_empty (s := { s with hops := s.hops + 1 }) empty running embedding steady step
        simp only [goes, forall_const]
        by_cases none : stepHits loop step = []
        · rw [none, List.foldl_nil] at seen
          simp only [none, true_and]
          by_cases stops : Stops step
          · rw [rounds_of_stopped (fun on => (ends.mp on) stops), seen]
            simp [stops]
          · rw [ih seen (ends.mpr stops) still, hops]
            simp [stops]
        · have found : (execute loop { s with hops := s.hops + 1 } step).seen ≠ [] := by
            rw [seen]
            exact ingests_ne_nil _ none
          let counted : LoopState := { s with hops := s.hops + 1 }
          have collected : Collected loop.principal loop.db counted.seen := by
            change Collected loop.principal loop.db s.seen
            rw [empty]
            exact fun entry inside => absurd inside List.not_mem_nil
          have after := (execute_spec collected step).1
          simp only [none, false_and, iff_false]
          exact seen_ne_nil after found rest
      · have refused : (round loop s step).stopped ≠ none ∧ (round loop s step).seen = [] := by
          cases reason : refusal loop s with
          | none => exact absurd ((refusal_of_empty empty).mp reason) goes
          | some reason' => simp [round, running, reason, empty]
        rw [rounds_of_stopped refused.1, refused.2]
        simp [goes]

end AgentLoop

namespace AgenticRetriever

open AgentLoop

variable {retriever : AgenticRetriever} {request : RecallIn}

/-- This is the planner that recall asks, if it asks one. -/
def asked (retriever : AgenticRetriever) (request : RecallRequest) : Option Llm :=
  if (retriever.skipReason request).isNone then retriever.resolvedPlanner else none

/-- The payload is a plan with steps. -/
def Usable (retriever : AgenticRetriever) (payload : Json) : Prop :=
  ∃ plan, QueryPlan.parsePlan retriever.pydantic payload = .ok plan ∧ plan.steps ≠ []

/-- This is a result of plain hybrid retrieval. -/
def Hybrid (retriever : AgenticRetriever) (request : RecallRequest) (result : ContextBundle × Database) :
    Prop :=
  ∃ usage rationale, result = retriever.fallbackHybrid request usage rationale

/-- This is a result of the plan whose only step searches for the query. -/
def Seeded (retriever : AgenticRetriever) (request : RecallRequest) (result : ContextBundle × Database) :
    Prop :=
  ∃ planner usage plan, plan.steps = [.semanticSearch request.query 20] ∧
    retriever.runPlan request planner usage plan = .ok result

/-- Recall returns a bundle. It comes from hybrid retrieval if the planner fails, and from hybrid
retrieval or from the seed plan if its payload is no usable plan. -/
def Degrades (retriever : AgenticRetriever) (request : RecallRequest) : Prop :=
  ∃ result, retriever.recall_ request = .ok result ∧
    ∀ planner, asked retriever request = some planner → match retriever.answerOf request planner with
      | .error _ => Hybrid retriever request result
      | .ok response => Usable retriever response.structured ∨ Hybrid retriever request result ∨
          Seeded retriever request result

/-- The payload that the planner answers with is empty or a valid plan, and the query is short enough
for a step where no step of the plan finds a memory. -/
def Handled (retriever : AgenticRetriever) (request : RecallRequest) : Prop :=
  ∀ planner response, asked retriever request = some planner →
    retriever.answerOf request planner = .ok response →
      ∃ plan, QueryPlan.parsePlan retriever.pydantic response.structured = .ok plan ∧
        (FindsNothing (retriever.loop request false) 0 plan.steps → request.query.length ≤ 500)

theorem make_isSome (rationale : Str) (steps : List PlanStep) :
    (∃ plan, QueryPlan.make rationale steps = some plan) ↔
      rationale.length ≤ 500 ∧ steps.length ≤ 8 ∧ ∀ step ∈ steps, step.valid = true := by
  rw [QueryPlan.make]
  split
  · rename_i accepted
    exact iff_of_true ⟨_, rfl⟩ accepted
  · rename_i refused
    exact iff_of_false (fun ⟨plan, made⟩ => absurd made (by simp)) refused

theorem steps_of_make (rationale : Str) (steps : List PlanStep) (plan : ExplainedPlan)
    (made : QueryPlan.make rationale steps = some plan) : plan.steps = steps := by
  rw [QueryPlan.make] at made
  split at made
  · rw [← Option.some.inj made]
  · exact absurd made (by simp)

/-- The seed plan exists for a query that fits into a step. -/
theorem seedPlan_isOk (request : RecallIn) (rationale : Str) (brief : rationale.length ≤ 500) :
    (∃ plan, seedPlan request.toRecallRequest rationale = .ok plan) ↔ request.query.length ≤ 500 := by
  have made := make_isSome rationale [.semanticSearch request.query 20]
  have bounds := request.queryBounds
  have fits : (rationale.length ≤ 500 ∧ [PlanStep.semanticSearch request.query 20].length ≤ 8 ∧
      ∀ step ∈ [PlanStep.semanticSearch request.query 20], step.valid = true) ↔
        request.query.length ≤ 500 := by
    simp [brief, PlanStep.valid, List.length_pos_iff.mp bounds.1, Nat.one_le_iff_ne_zero]
  rw [fits] at made
  rw [← made, seedPlan]
  cases QueryPlan.make rationale [.semanticSearch request.query 20] with
  | none => simp
  | some plan => simp

theorem steps_of_seedPlan (request : RecallRequest) (rationale : Str) (plan : ExplainedPlan)
    (seeded : seedPlan request rationale = .ok plan) :
    plan.steps = [.semanticSearch request.query 20] := by
  rw [seedPlan] at seeded
  split at seeded
  · rename_i made
    rw [← Except.ok.inj seeded]
    exact steps_of_make rationale _ _ made
  · exact absurd seeded (by simp)

/-- The loop finds no candidates exactly when no step that it reaches finds a memory. -/
theorem candidates_iff (plan : QueryPlan) (second : Bool) :
    (AgentLoop.run (retriever.loop request.toRecallRequest second) plan).candidates = [] ↔
      FindsNothing (retriever.loop request.toRecallRequest second) 0 plan.steps := by
  have steady : ∀ embed, (retriever.loop request.toRecallRequest second).embedder = some embed →
      ∀ query, (embed query).isSome = true := by
    intro embed found query
    obtain ⟨vectors, _, rfl⟩ := Option.map_eq_some_iff.mp found
    rfl
  rw [AgentLoop.run, List.map_eq_nil_iff]
  exact seen_rounds_iff steady rfl rfl rfl plan.steps

variable (retriever) in
/-- A plan is carried out unless it finds nothing and the query is too long for a step. -/
theorem runPlan_isOk (planner : Llm) (usage : RecallUsage) (plan : ExplainedPlan) :
    (∃ result, retriever.runPlan request.toRecallRequest planner usage plan = .ok result) ↔
      (FindsNothing (retriever.loop request.toRecallRequest false) 0 plan.steps →
        request.query.length ≤ 500) := by
  have seeds := seedPlan_isOk request [] (by simp)
  have executed : (∃ result, retriever.runPlan request.toRecallRequest planner usage plan = .ok result) ↔
      ∃ found, retriever.execute request.toRecallRequest plan = .ok found := by
    rw [runPlan]
    cases retriever.execute request.toRecallRequest plan with
    | error e => simp [bind, Except.bind]
    | ok found => simp [bind, Except.bind, pure, Except.pure]
  rw [executed, execute, ← candidates_iff plan.toQueryPlan false]
  split
  · rename_i none
    simp only [none, true_implies, ← seeds]
    cases seedPlan request.toRecallRequest [] with
    | error e => simp [bind, Except.bind]
    | ok seed => simp [bind, Except.bind, pure, Except.pure]
  · rename_i some
    simp [some, pure, Except.pure]

theorem brief_orDefault (plan : ExplainedPlan) :
    (Audit.orDefault (some plan.rationale) "planner returned no steps").length ≤ 500 := by
  have brief := plan.brief
  unfold Audit.orDefault
  split
  · rename_i c rest same
    rwa [← Option.some.inj same]
  · decide

theorem planOf_of_steps (plan : ExplainedPlan) (payload : Json)
    (parsed : QueryPlan.parsePlan retriever.pydantic payload = .ok plan) :
    retriever.planOf request.toRecallRequest payload = if plan.steps = [] then
      seedPlan request.toRecallRequest (Audit.orDefault (some plan.rationale) "planner returned no steps")
      else .ok plan := by
  rw [planOf, parsed]
  rfl

variable (retriever request) in
/-- A payload leads to a result when it is accepted, and a seed plan that it needs has a short query. -/
theorem planned_isOk (planner : Llm) (usage : RecallUsage) (payload : Json) :
    (∃ result, (retriever.planOf request.toRecallRequest payload >>=
      retriever.runPlan request.toRecallRequest planner usage) = .ok result) ↔
    ∃ plan, QueryPlan.parsePlan retriever.pydantic payload = .ok plan ∧
      (FindsNothing (retriever.loop request.toRecallRequest false) 0 plan.steps →
        request.query.length ≤ 500) := by
  cases parsed : QueryPlan.parsePlan retriever.pydantic payload with
  | error e =>
      rw [planOf, parsed]
      simp [bind, Except.bind]
  | ok plan =>
      rw [planOf_of_steps plan payload parsed]
      simp only [Except.ok.injEq, exists_eq_left']
      by_cases empty : plan.steps = []
      · have nothing : FindsNothing (retriever.loop request.toRecallRequest false) 0 plan.steps := by
          rw [empty]
          intro n step found
          exact absurd found (by simp)
        have seeds := seedPlan_isOk request _ (brief_orDefault plan)
        rw [if_pos empty]
        simp only [nothing, true_implies, bind_eq_ok]
        constructor
        · intro ⟨_, seed, seeded, _⟩
          exact seeds.mp ⟨seed, seeded⟩
        · intro short
          obtain ⟨seed, seeded⟩ := seeds.mpr short
          obtain ⟨result, done⟩ :=
            (runPlan_isOk retriever planner usage seed).mpr fun _ => short
          exact ⟨result, seed, seeded, done⟩
      · rw [if_neg empty]
        exact runPlan_isOk retriever planner usage plan

/-- A payload that leads to a result is a usable plan or makes way for the seed plan. -/
theorem usable_or_seeded (planner : Llm) (usage : RecallUsage) (payload : Json)
    (result : ContextBundle × Database)
    (done : (retriever.planOf request.toRecallRequest payload >>=
      retriever.runPlan request.toRecallRequest planner usage) = .ok result) :
    Usable retriever payload ∨ Seeded retriever request.toRecallRequest result := by
  obtain ⟨plan, planned, ran⟩ := (bind_eq_ok _ _ _).mp done
  cases parsed : QueryPlan.parsePlan retriever.pydantic payload with
  | error e =>
      rw [planOf, parsed] at planned
      exact absurd planned (by simp [bind, Except.bind])
  | ok answer =>
      rw [planOf_of_steps answer payload parsed] at planned
      split at planned
      · exact Or.inr ⟨planner, usage, plan, steps_of_seedPlan _ _ plan planned, ran⟩
      · rename_i some
        exact Or.inl ⟨answer, parsed, some⟩

theorem recall_of_asked (request : RecallRequest) (planner : Llm)
    (asks : asked retriever request = some planner) :
    retriever.recall_ request = match retriever.answerOf request planner with
      | .error e => .ok (retriever.fallbackHybrid request { mode := "agentic" }
          ("planner failed (" ++ e ++ "); ran plain hybrid retrieval"))
      | .ok response => retriever.planOf request response.structured >>=
          retriever.runPlan request planner (retriever.record { mode := "agentic" } response) := by
  rw [asked] at asks
  split at asks
  · rename_i willing
    have unskipped := Option.isNone_iff_eq_none.mp willing
    cases answer : retriever.answerOf request planner with
    | error e => simp only [recall_, unskipped, asks, answer]
    | ok response => simp only [recall_, unskipped, asks, answer]
  · exact absurd asks (by simp)

theorem recall_of_not_asked (request : RecallRequest) (unasked : asked retriever request = none) :
    ∃ result, retriever.recall_ request = .ok result := by
  rw [asked] at unasked
  rw [recall_]
  cases skip : retriever.skipReason request with
  | some reason => exact ⟨_, rfl⟩
  | none =>
      rw [skip] at unasked
      rw [show retriever.resolvedPlanner = none from unasked]
      exact ⟨_, rfl⟩

/-- Recall degrades as it should exactly when what its planner answers is handled. -/
theorem degrades_iff (retriever : AgenticRetriever) (request : RecallIn) :
    Degrades retriever request.toRecallRequest ↔ Handled retriever request.toRecallRequest := by
  cases asks : asked retriever request.toRecallRequest with
  | none =>
      obtain ⟨result, done⟩ := recall_of_not_asked request.toRecallRequest asks
      refine iff_of_true ⟨result, done, ?_⟩ ?_
      · intro planner asked
        exact absurd (asks.symm.trans asked) (by simp)
      · intro planner response asked
        exact absurd (asks.symm.trans asked) (by simp)
  | some planner =>
      have called := recall_of_asked request.toRecallRequest planner asks
      have only (other : Llm) (asked : asked retriever request.toRecallRequest = some other) :
          other = planner := Option.some.inj (asked.symm.trans asks)
      cases answer : retriever.answerOf request.toRecallRequest planner with
      | error e =>
          rw [answer] at called
          refine iff_of_true ⟨_, called, ?_⟩ ?_
          · intro other asked
            rw [only other asked, answer]
            exact ⟨_, _, rfl⟩
          · intro other response asked answered
            rw [only other asked, answer] at answered
            exact absurd answered (by simp)
      | ok response =>
          rw [answer] at called
          have planned := planned_isOk retriever request planner
            (retriever.record { mode := "agentic" } response) response.structured
          constructor
          · intro ⟨result, done, _⟩ other response' asked answered
            rw [only other asked, answer] at answered
            obtain rfl := Except.ok.inj answered
            exact planned.mp ⟨result, called.symm.trans done⟩
          · intro handled
            obtain ⟨result, done⟩ := planned.mpr (handled planner response asks answer)
            refine ⟨result, called.trans done, ?_⟩
            intro other asked
            rw [only other asked, answer]
            exact (usable_or_seeded planner _ response.structured result done).imp_right Or.inr

/-- This planner answers every question with the payload. -/
def answering (payload : Json) : AgenticRetriever where
  pydantic := ⟨fun _ => none, fun _ => none⟩
  engine := sampleEngine
  reranker := ⟨fun _ _ prior => prior, fun score _ => score.1⟩
  isoformat _ := []
  principal := MemoryService.sampleOwner
  db := {}
  planner := some fun _ _ _ => .ok { text := [], structured := payload }
  now := 0
  cost _ _ price _ := price

/-- A step of a type that no model has leaves recall as an exception. -/
theorem unknown_step_raises :
    ¬ ∀ (retriever : AgenticRetriever) (request : RecallIn),
      Degrades retriever request.toRecallRequest := by
  intro claim
  obtain ⟨result, done, _⟩ := claim (answering (.obj [("steps", .arr [.obj [("type", .str "search")]])]))
    { query := "x", queryBounds := by decide }
  have raised : (answering (.obj [("steps", .arr [.obj [("type", .str "search")]])])).recall_
      { query := "x" } = .error .invalidPlan := rfl
  exact absurd (raised.symm.trans done) (by simp)

end AgenticRetriever
end Kortex
