import Kortex.Model.Retrieval

/-
This file models the query plans and the loop that executes them.
-/

namespace Kortex

/-- These are the steps of a plan. -/
inductive PlanStep where
  | semanticSearch (query : Str) (topK : Nat)
  | keywordSearch (query : Str) (topK : Nat)
  | linkExpand (linkTypes : List MemoryLinkType) (maxDepth : Nat)
  | timeFilter (after before : Option Instant)
  | stopAndAnswer (reason : Str)
deriving DecidableEq

/-- These are the bounds that the fields of a step are checked against. -/
def PlanStep.valid : PlanStep → Bool
  | .semanticSearch query topK | .keywordSearch query topK =>
      decide (1 ≤ query.length ∧ query.length ≤ 500 ∧ 1 ≤ topK ∧ topK ≤ 100)
  | .linkExpand _ maxDepth => decide (1 ≤ maxDepth ∧ maxDepth ≤ 2)
  | .timeFilter .. | .stopAndAnswer _ => true

/-- A plan has at most eight steps, and all of them are valid. -/
structure QueryPlan where
  steps : List PlanStep := []
  short : steps.length ≤ 8 := by decide
  valid : ∀ step ∈ steps, step.valid = true := by decide

namespace AgentLoop

/-- These are the entries of the trace. -/
inductive TraceEntry where
  | stopAndAnswer
  | timeFilter (after before : Option Instant)
  | embedFailed
  | searched (step : PlanStep) (added : Nat)
  | linkExpand (depth added : Nat)
deriving DecidableEq

/-- A loop works for a principal on a store. The clock says whether a step has headroom. -/
structure Loop where
  settings : Settings
  engine : SearchEngine
  principal : Principal
  db : Database
  scopes : List ScopeFilter := []
  embedder : Option (Str → Option (List PyFloat)) := none
  headroom : Nat → Bool := fun _ => true

/-- These are the variables of `run`. The embedder is dropped once it fails. -/
structure LoopState where
  seen : Dict Nat HybridSearchHit := []
  embedding : Bool := true
  hops : Nat := 0
  stopped : Option Str := none
  trace : List TraceEntry := []

/-- This is one round of the loop of `_ingest`. -/
def ingest (seen : Dict Nat HybridSearchHit) (hit : HybridSearchHit) : Dict Nat HybridSearchHit :=
  match Dict.get? seen hit.memoryId with
  | some existing => if PyFloat.lt existing.score hit.score then Dict.set seen hit.memoryId hit else seen
  | none => Dict.set seen hit.memoryId hit

def zeroScore : PyFloat := Retrieval.zeroPointZero

/-- This is the body of the loop over the neighbors of one memory, with the next frontier. -/
def follow (p : Principal) (db : Database) (memoryId : Nat)
    (found : Dict Nat HybridSearchHit × List Nat) (link : MemoryLink) :
    Dict Nat HybridSearchHit × List Nat :=
  let other := link.other memoryId
  if (Dict.get? found.1 other).isSome then found
  else match MemoryRepo.getById p db other with
    | none => found
    | some m => (Dict.set found.1 m.id (hitOf m zeroScore), found.2 ++ [m.id])

/-- This is the loop over the frontier. -/
def followAll (p : Principal) (db : Database) (types : List MemoryLinkType)
    (seen : Dict Nat HybridSearchHit) (frontier : List Nat) : Dict Nat HybridSearchHit × List Nat :=
  frontier.foldl (fun found memoryId =>
    (MemoryLinkRepo.neighbors db memoryId types).foldl (follow p db memoryId) found) (seen, [])

/-- This is the loop of `_expand_links`; the set of the next frontier is read in the order of keys. -/
def expandLinks (p : Principal) (db : Database) (types : List MemoryLinkType) :
    Nat → Dict Nat HybridSearchHit → List Nat → Dict Nat HybridSearchHit
  | 0, seen, _ => seen
  | depth + 1, seen, frontier =>
      let (seen, next) := followAll p db types seen frontier
      let frontier := next.insertionSort (· ≤ ·)
      if frontier = [] then seen else expandLinks p db types depth seen frontier

/-- These are the variables of `_expand_links`. -/
structure Walk where
  seen : Dict Nat HybridSearchHit
  next : List Nat := []
  added : Nat := 0

/-- This is `follow` with the count of the memories that are added. -/
def visit (p : Principal) (db : Database) (memoryId : Nat) (w : Walk) (link : MemoryLink) : Walk :=
  let other := link.other memoryId
  if (Dict.get? w.seen other).isSome then w
  else match MemoryRepo.getById p db other with
    | none => w
    | some m =>
        { seen := Dict.set w.seen m.id (hitOf m zeroScore)
          next := w.next ++ [m.id]
          added := w.added + 1 }

/-- This is one round of the loop over the depths. -/
def visitAll (p : Principal) (db : Database) (types : List MemoryLinkType) (w : Walk)
    (frontier : List Nat) : Walk :=
  frontier.foldl (fun w memoryId =>
    (MemoryLinkRepo.neighbors db memoryId types).foldl (visit p db memoryId) w) { w with next := [] }

/-- This is the loop over the depths. -/
def walk (p : Principal) (db : Database) (types : List MemoryLinkType) : Nat → Walk → List Nat → Walk
  | 0, w, _ => w
  | depth + 1, w, frontier =>
      let w := visitAll p db types w frontier
      let frontier := w.next.insertionSort (· ≤ ·)
      if frontier = [] then w else walk p db types depth w frontier

/-- This is `_expand_links`, with the number of the memories that it adds. -/
def expandLinks_ (p : Principal) (db : Database) (seedIds : List Nat) (types : List MemoryLinkType)
    (maxDepth : Nat) (seen : Dict Nat HybridSearchHit) : Dict Nat HybridSearchHit × Nat :=
  if seedIds = [] then (seen, 0)
  else
    let w := walk p db types maxDepth { seen := seen } seedIds
    (w.seen, w.added)

def keys (seen : Dict Nat HybridSearchHit) : List Nat := seen.map Prod.fst

variable (loop : Loop)

/-- This is a search step, with the vector of its query if there is one. -/
def searchStep (s : LoopState) (step : PlanStep) (query : Str) (topK : Nat)
    (vector : Option (List PyFloat)) : LoopState :=
  let hits := Retrieval.hybridSearch loop.engine loop.settings loop.principal loop.db
    { query := query, queryVector := vector, scopes := loop.scopes
      maxSensitivity := loop.principal.maxSensitivity, limit := topK }
  let seen := hits.foldl ingest s.seen
  { s with seen := seen
           trace := s.trace ++ [.searched step (seen.length - s.seen.length)] }

/-- This is the body of the loop of `run` for a step that is executed. -/
def execute (s : LoopState) (step : PlanStep) : LoopState :=
  match step with
  | .stopAndAnswer reason =>
      { s with stopped := some (if reason = [] then "stop" else "stop:" ++ reason)
               trace := s.trace ++ [.stopAndAnswer] }
  | .timeFilter after before => { s with trace := s.trace ++ [.timeFilter after before] }
  | .keywordSearch query topK => searchStep loop s step query topK none
  | .semanticSearch query topK =>
      match (if s.embedding then loop.embedder else none) with
      | none => searchStep loop s step query topK none
      | some embed =>
          match embed query with
          | some vector => searchStep loop s step query topK (some vector)
          | none => searchStep loop { s with embedding := false, trace := s.trace ++ [.embedFailed] }
              step query topK none
  | .linkExpand types maxDepth =>
      let seen := expandLinks loop.principal loop.db types maxDepth s.seen (keys s.seen)
      { s with seen := seen
               trace := s.trace ++ [.linkExpand maxDepth (seen.length - s.seen.length)] }

/-- These are the checks before a step, with the reason to stop. -/
def refusal (s : LoopState) : Option Str :=
  if !loop.headroom s.hops then some "budget_exhausted"
  else if loop.settings.retrievalMaxHops ≤ s.hops then some "max_hops"
  else if loop.settings.retrievalMaxCandidates ≤ s.seen.length then some "max_candidates"
  else none

/-- This is one round of the loop of `run`; after a `break` nothing happens. -/
def round (s : LoopState) (step : PlanStep) : LoopState :=
  if s.stopped.isSome then s
  else match refusal loop s with
    | some reason => { s with stopped := some reason }
    | none => execute loop { s with hops := s.hops + 1 } step

structure AgentLoopResult where
  candidates : List HybridSearchHit
  hops : Nat
  stoppedReason : Str
  trace : List TraceEntry

/-- This is `run`. -/
def run (plan : QueryPlan) : AgentLoopResult :=
  let s := plan.steps.foldl (round loop) {}
  { candidates := s.seen.map Prod.snd
    hops := s.hops
    stoppedReason := s.stopped.getD "exhausted"
    trace := s.trace }

end AgentLoop
end Kortex
