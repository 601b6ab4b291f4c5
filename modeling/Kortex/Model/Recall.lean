import Kortex.Model.AgentLoop
import Kortex.Model.ReadPaths
import Kortex.Model.Retrieval

/-
This file models the agentic recall: the plan of the planner, its validation and the ways to degrade.
-/

namespace Kortex

/-- These are the conversions of the validation library for numbers and times. -/
structure Pydantic where
  int : Json → Option Int
  datetime : Json → Option Instant

/-- A validation fails in the payload of the planner, or in the step that recall makes itself. -/
inductive RecallError where
  | invalidPlan
  | invalidSeed
deriving DecidableEq

/-- A plan has a rationale of at most 500 characters. -/
structure ExplainedPlan extends QueryPlan where
  rationale : Str := []
  brief : rationale.length ≤ 500 := by decide

namespace QueryPlan

variable (pydantic : Pydantic)

/-- A value that is false in a condition. -/
def falsy : Json → Bool
  | .null => true
  | .bool b => !b
  | .int i => i == 0
  | .float (.finite x) => decide (x.value = 0)
  | .float _ => false
  | .str s => s.isEmpty
  | .arr items => items.isEmpty
  | .obj members => members.isEmpty

/-- This is a field with a text; the last argument is its default. -/
def strField (fields : JsonDict) (name : Str) (default : Option Str) : Option Str :=
  match Dict.get? fields name with
  | none => default
  | some (.str text) => some text
  | some _ => none

/-- This is a field with an integer of at least one, as the bounds of all steps demand. -/
def intField (fields : JsonDict) (name : Str) (default : Nat) : Option Nat :=
  match Dict.get? fields name with
  | none => some default
  | some value => (pydantic.int value).map Int.toNat

def datetimeField (fields : JsonDict) (name : Str) : Option (Option Instant) :=
  match Dict.get? fields name with
  | none => some none
  | some .null => some none
  | some value => (pydantic.datetime value).map some

def linkType (value : Json) : Option MemoryLinkType :=
  match value with
  | .str text => [MemoryLinkType.related, .derivedFrom, .supersedes, .contradicts, .partOf].find?
      fun linkType => linkType.value == text
  | _ => none

def linkTypesField (fields : JsonDict) : Option (List MemoryLinkType) :=
  match Dict.get? fields "link_types".toList with
  | none => some [.related, .derivedFrom]
  | some (.arr items) => items.mapM linkType
  | some _ => none

/-- This is a step before its bounds are checked; its type tells the models apart. -/
def stepOf (value : Json) : Option PlanStep :=
  match value with
  | .obj fields =>
      match Dict.get? fields "type".toList with
      | some (.str type) =>
          if type = "semantic_search".toList then do
            return .semanticSearch (← strField fields "query" none) (← intField pydantic fields "top_k" 20)
          else if type = "keyword_search".toList then do
            return .keywordSearch (← strField fields "query" none) (← intField pydantic fields "top_k" 20)
          else if type = "link_expand".toList then do
            return .linkExpand (← linkTypesField fields) (← intField pydantic fields "max_depth" 1)
          else if type = "time_filter".toList then do
            return .timeFilter (← datetimeField pydantic fields "after")
              (← datetimeField pydantic fields "before")
          else if type = "stop_and_answer".toList then do
            return .stopAndAnswer (← strField fields "reason" (some []))
          else none
      | _ => none
  | _ => none

def stepsField (fields : JsonDict) : Option (List PlanStep) :=
  match Dict.get? fields "steps".toList with
  | none => some []
  | some (.arr items) => items.mapM (stepOf pydantic)
  | some _ => none

/-- This is `QueryPlan(rationale=rationale, steps=steps)`. -/
def make (rationale : Str) (steps : List PlanStep) : Option ExplainedPlan :=
  if accepted : rationale.length ≤ 500 ∧ steps.length ≤ 8 ∧ ∀ step ∈ steps, step.valid = true then
    some { steps := steps, short := accepted.2.1, valid := accepted.2.2
           rationale := rationale, brief := accepted.1 }
  else none

/-- This is `model_validate`. -/
def validate : Json → Option ExplainedPlan
  | .obj fields => do
      make (← strField fields "rationale" (some [])) (← stepsField pydantic fields)
  | _ => none

/-- This is `parse_plan`. -/
def parsePlan (payload : Json) : Except RecallError ExplainedPlan :=
  if falsy payload then .ok {}
  else match validate pydantic payload with
    | some plan => .ok plan
    | none => .error .invalidPlan

end QueryPlan

structure LlmResponse where
  text : Str
  structured : Json := .null
  model : Str := []
  tokensIn : Nat := 0
  tokensOut : Nat := 0

/-- A model answers to a system message and a user message, or fails with the text of an `LlmError`. -/
abbrev Llm := Str → Str → Str → Except Str LlmResponse

structure RecallBudget where
  latencyMs : Nat := 0
  tokens : Nat := 0

namespace RecallBudget

variable (budget : RecallBudget)

/-- This is `has_headroom` after some time; a budget of zero has no cap. -/
def hasHeadroom (elapsedMs : ℚ) (needMs : Nat) : Bool :=
  budget.latencyMs == 0 || decide ((needMs : ℚ) ≤ budget.latencyMs - elapsedMs)

def affordsTokens (spent need : Nat) : Bool :=
  budget.tokens == 0 || decide (need ≤ budget.tokens - spent)

end RecallBudget

structure RecallUsage where
  mode : Str := "hybrid"
  tokensIn : Nat := 0
  tokensOut : Nat := 0
  llmCalls : Nat := 0
  planSteps : Nat := 0
  hops : Nat := 0
  latencyMs : ℚ := 0
  costUsd : Option PyFloat := none
  budgetExhausted : Bool := false

def RecallUsage.totalTokens (usage : RecallUsage) : Nat := usage.tokensIn + usage.tokensOut

structure RecallRequest where
  query : Str
  scopes : List ScopeFilter := []
  synthesize : Bool := false
  maxTokens : Nat := 0
  perItemMax : Nat := 800
  latencyBudgetMs : Nat := 0
  tokenBudget : Nat := 0

/-- This is a request within the bounds of the schema. -/
structure RecallIn extends RecallRequest where
  queryBounds : 1 ≤ query.length ∧ query.length ≤ 2000
  maxTokensBound : maxTokens ≤ 32000 := by decide
  perItemMaxBounds : 64 ≤ perItemMax ∧ perItemMax ≤ 4000 := by decide
  latencyBudgetBound : latencyBudgetMs ≤ 600000 := by decide
  tokenBudgetBound : tokenBudget ≤ 1000000 := by decide

structure Citation where
  publicId : Str
  title : Str
  score : PyFloat

/-- The trace is that of the loop, or says how the fallback has searched. -/
inductive PlanTrace where
  | loop (entries : List AgentLoop.TraceEntry)
  | fallbackHybrid (usedVector : Bool)

structure ContextBundle where
  query : Str
  answer : Option Str
  citations : List Citation
  candidates : List RerankedHit
  usedTokens : Nat
  planTrace : PlanTrace
  planRationale : Str
  hops : Nat
  stoppedReason : Str
  usage : RecallUsage

/-- These are the settings of recall with their defaults. -/
structure RecallSettings where
  llmModelPlanner : Str := "claude-sonnet-4-7"
  llmModelSummarizer : Str := "claude-haiku-4-5"
  agenticRetrieval : Bool := true
  retrievalDefaultMaxTokens : Nat := 4000
  retrievalPlannerMinBudgetMs : Nat := 1500
  retrievalPlannerMinBudgetTokens : Nat := 1024
  retrievalHopReserveMs : Nat := 250
  llmPrices : Dict Str (List PyFloat) := []

/-- The clock is read before the plan, before each hop of the first or second loop, before the synthesis
and at the end. -/
inductive Moment where
  | plan
  | hop (second : Bool) (n : Nat)
  | synthesis
  | finish

/-- A retriever has its principal and tables, and the skills, models and clock that it uses. -/
structure AgenticRetriever where
  settings : Settings := {}
  recallSettings : RecallSettings := {}
  pydantic : Pydantic
  engine : SearchEngine
  reranker : Reranker
  isoformat : Instant → Str
  principal : Principal
  db : Database
  /-- The embedder may be missing, and does not fail. -/
  embedder : Option (Str → List PyFloat) := none
  planner : Option Llm := none
  summarizer : Option Llm := none
  /-- This is `get_llm`, which may raise. -/
  registered : Option Llm := none
  elapsedMs : Moment → ℚ := fun _ => 0
  now : Instant
  /-- This is the cost of input and output tokens at their prices. -/
  cost : Nat → Nat → PyFloat → PyFloat → PyFloat

namespace AgenticRetriever

variable (retriever : AgenticRetriever) (request : RecallRequest)

def budget : RecallBudget where
  latencyMs := request.latencyBudgetMs
  tokens := request.tokenBudget

def maxTokens : Nat :=
  if request.maxTokens = 0 then retriever.recallSettings.retrievalDefaultMaxTokens else request.maxTokens

/-- This is the model that plans, resolved when it is needed. -/
def resolvedPlanner : Option Llm :=
  match retriever.planner with
  | some planner => some planner
  | none => if retriever.recallSettings.agenticRetrieval then retriever.registered else none

/-- This is the text of a budget that is too small. -/
def tooSmall (name : Str) (budget : Nat) (unit : Str) (need : Nat) : Str :=
  name ++ " budget " ++ Str.ofNat budget ++ unit ++ " below the " ++ Str.ofNat need ++ unit ++
    " a planner round trip needs; ran plain hybrid retrieval"

def unavailable : Str := "planner unavailable; ran plain hybrid retrieval"

/-- This is `should_plan`: the reason not to plan, if there is one. -/
def skipReason : Option Str :=
  let budget := budget request
  let s := retriever.recallSettings
  if !s.agenticRetrieval then some "agentic retrieval disabled by configuration"
  else if retriever.resolvedPlanner.isNone then some unavailable
  else if !budget.hasHeadroom (retriever.elapsedMs .plan) s.retrievalPlannerMinBudgetMs then
    some (tooSmall "latency" budget.latencyMs "ms" s.retrievalPlannerMinBudgetMs)
  else if !budget.affordsTokens 0 s.retrievalPlannerMinBudgetTokens then
    some (tooSmall "token" budget.tokens [] s.retrievalPlannerMinBudgetTokens)
  else none

/-- This is `price_usd`. -/
def priceUsd (response : LlmResponse) : Option PyFloat :=
  match Dict.get? retriever.recallSettings.llmPrices response.model with
  | some (input :: output :: _) => some (retriever.cost response.tokensIn response.tokensOut input output)
  | _ => none

/-- This is `record`. -/
def record (usage : RecallUsage) (response : LlmResponse) : RecallUsage :=
  { usage with
    llmCalls := usage.llmCalls + 1
    tokensIn := usage.tokensIn + response.tokensIn
    tokensOut := usage.tokensOut + response.tokensOut
    costUsd := match retriever.priceUsd response with
      | some cost => some (retriever.engine.add (usage.costUsd.getD Retrieval.zeroPointZero) cost)
      | none => usage.costUsd }

def plannerSystem : Str :=
  "You are the retrieval planner for the Kortex memory layer. Output a " ++
  "QueryPlan with a short rationale and up to 6 steps that will surface the " ++
  "memories most relevant to the user's question. Steps:\n" ++
  " * semantic_search/keyword_search to fan out\n" ++
  " * link_expand to follow memory_links from prior hits\n" ++
  " * time_filter to bound when results were stored\n" ++
  " * stop_and_answer when you have enough.\n" ++
  "Prefer 2-4 fan-out steps before stopping. Never invent identifiers."

def summarizerSystem : Str :=
  "You are answering a user question using ONLY the supplied memories. " ++
  "Cite each memory you use as [m:<public_id>]. If the memories don't " ++
  "answer the question, say so explicitly. Keep the answer concise."

/-- This is the message to the planner. -/
def question : Str :=
  let scopes : List Json := request.scopes.map fun scope =>
    .obj [("type".toList, .str scope.scopeType.value), ("id".toList, .int scope.scopeId)]
  let hint : Str := if request.scopes = [] then [] else "\nScopes: " ++ Json.dumps {} (.arr scopes)
  "Question: " ++ request.query ++ hint

/-- This is the answer of a planner. -/
def answerOf (planner : Llm) : Except Str LlmResponse :=
  planner retriever.recallSettings.llmModelPlanner plannerSystem (question request)

/-- This is `SemanticSearch(query=request.query, top_k=20)` in a plan of one step. -/
def seedPlan (rationale : Str) : Except RecallError ExplainedPlan :=
  match QueryPlan.make rationale [.semanticSearch request.query 20] with
  | some plan => .ok plan
  | none => .error .invalidSeed

/-- This is the part of `_plan` behind the answer of the planner. -/
def planOf (payload : Json) : Except RecallError ExplainedPlan := do
  let plan ← QueryPlan.parsePlan retriever.pydantic payload
  if plan.steps = [] then
    seedPlan request (Audit.orDefault (some plan.rationale) "planner returned no steps")
  else return plan

/-- This is `_rerank_pack`. -/
def rerankPack (hits : List HybridSearchHit) : List RerankedHit :=
  if hits = [] then [] else
  let (kept, _) := retriever.reranker.rerankAndPack request.query hits
    { maxTokens := retriever.maxTokens request, perItemMax := request.perItemMax }
  if retriever.settings.conflictDetection then
    let (noted, demoted) := Conflicts.annotateConflicts retriever.isoformat retriever.principal
      retriever.db (kept.map RerankedHit.hit)
    Conflicts.demoteSuperseded ((kept.zip noted).map fun entry => { entry.1 with hit := entry.2 }) demoted
      fun r => r.hit.memoryId
  else kept

def citations (kept : List RerankedHit) : List Citation :=
  kept.map fun r => ⟨r.hit.publicId, r.hit.title, r.finalScore⟩

/-- This is `_used_tokens`. -/
def usedTokens (kept : List RerankedHit) : Nat :=
  (kept.map fun r => min (estimateTokens r.hit.text) request.perItemMax).sum

/-- This is `record_access` for the hits that are returned. -/
def recorded (kept : List RerankedHit) : Database :=
  MemoryRepo.recordAccess retriever.now retriever.db (kept.map fun r => r.hit.memoryId)

/-- This is `_fallback_hybrid`. -/
def fallbackHybrid (usage : RecallUsage) (rationale : Str) : ContextBundle × Database :=
  let hits := Retrieval.hybridSearch retriever.engine retriever.settings retriever.principal retriever.db
    { query := request.query, queryVector := retriever.embedder.map fun embed => embed request.query
      scopes := request.scopes, maxSensitivity := retriever.principal.maxSensitivity, limit := 50 }
  let kept := retriever.rerankPack request hits
  ({ query := request.query
     answer := none
     citations := citations kept
     candidates := kept
     usedTokens := usedTokens request kept
     planTrace := .fallbackHybrid retriever.embedder.isSome
     planRationale := Audit.orDefault (some rationale) unavailable
     hops := 0
     stoppedReason := "fallback"
     usage := { usage with mode := "hybrid", latencyMs := retriever.elapsedMs .finish } },
    retriever.recorded kept)

/-- This is the loop of the first or the second run. -/
def loop (second : Bool) : AgentLoop.Loop where
  settings := retriever.settings
  engine := retriever.engine
  principal := retriever.principal
  db := retriever.db
  scopes := request.scopes
  embedder := retriever.embedder.map fun embed query => some (embed query)
  headroom n := (budget request).hasHeadroom (retriever.elapsedMs (.hop second n))
    retriever.recallSettings.retrievalHopReserveMs

/-- A plan that finds nothing is followed by the step that seeds with the query. -/
def execute (plan : ExplainedPlan) : Except RecallError AgentLoop.AgentLoopResult := do
  let result := AgentLoop.run (retriever.loop request false) plan.toQueryPlan
  if result.candidates = [] then
    let seed ← seedPlan request []
    return AgentLoop.run (retriever.loop request true) seed.toQueryPlan
  else return result

def memoriesBlock (kept : List RerankedHit) : Str :=
  Str.join "\n\n" (kept.map fun r => "[m:" ++ r.hit.publicId ++ "] " ++ r.hit.title ++ "\n" ++ r.hit.body)

/-- This is `_synthesize`. -/
def synthesize (summarizer : Llm) (kept : List RerankedHit) : Except Str LlmResponse :=
  summarizer retriever.recallSettings.llmModelSummarizer summarizerSystem
    ("Question: " ++ request.query ++ "\n\nMemories:\n" ++ memoriesBlock kept ++ "\n\nAnswer:")

/-- This is the answer of the summarizer, unless the budget is too small for it. -/
def answered (planner : Llm) (kept : List RerankedHit) (usage : RecallUsage) : Option Str × RecallUsage :=
  let s := retriever.recallSettings
  let affords := (budget request).hasHeadroom (retriever.elapsedMs .synthesis)
      s.retrievalPlannerMinBudgetMs &&
    (budget request).affordsTokens usage.totalTokens s.retrievalPlannerMinBudgetTokens
  if !request.synthesize then (none, usage)
  else if !affords then (none, { usage with budgetExhausted := true })
  else match retriever.synthesize request (retriever.summarizer.getD planner) kept with
    | .ok response => (some (Str.strip response.text), retriever.record usage response)
    | .error _ => (none, usage)

/-- This is the part of `recall` behind the plan. -/
def runPlan (planner : Llm) (usage : RecallUsage) (plan : ExplainedPlan) :
    Except RecallError (ContextBundle × Database) := do
  let result ← retriever.execute request plan
  let kept := retriever.rerankPack request result.candidates
  let (answer, usage) := retriever.answered request planner kept usage
  return ({ query := request.query
            answer := answer
            citations := citations kept
            candidates := kept
            usedTokens := usedTokens request kept
            planTrace := .loop result.trace
            planRationale := plan.rationale
            hops := result.hops
            stoppedReason := result.stoppedReason
            usage := { usage with
              planSteps := plan.steps.length
              hops := result.hops
              latencyMs := retriever.elapsedMs .finish
              budgetExhausted := usage.budgetExhausted ||
                result.stoppedReason == "budget_exhausted".toList } },
    retriever.recorded kept)

/-- This is `recall`, which catches the failure of the planner and no other exception of the plan. -/
def recall_ : Except RecallError (ContextBundle × Database) :=
  match retriever.skipReason request, retriever.resolvedPlanner with
  | none, some planner =>
      match retriever.answerOf request planner with
      | .error e => .ok (retriever.fallbackHybrid request { mode := "agentic" }
          ("planner failed (" ++ e ++ "); ran plain hybrid retrieval"))
      | .ok response => do
          let plan ← retriever.planOf request response.structured
          retriever.runPlan request planner (retriever.record { mode := "agentic" } response) plan
  | reason, _ => .ok (retriever.fallbackHybrid request {} (reason.getD []))

end AgenticRetriever
end Kortex
