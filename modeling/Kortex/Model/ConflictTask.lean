import Kortex.Model.Embedding
import Kortex.Model.MemoryLinks
import Kortex.Model.Retrieval

/-
This file models the conflict task of the worker: `_detect_batch`, interleaved with the service and
with the batches of the embedder.
-/

namespace Kortex

structure ConflictCandidate where
  memoryId : Nat
  publicId : Str
  title : Str
  body : Str
  createdAt : Instant

/-- This is `Relation`. -/
inductive ConflictRelation where
  | none
  | contradicts
  | supersedes
deriving DecidableEq

structure ConflictVerdict where
  memoryId : Nat
  relation : ConflictRelation
  confidence : PyFloat

/-- This is the comparison `x >= y`, which is false when one of the floats is NaN. -/
def PyFloat.ge (x y : PyFloat) : Bool :=
  match x.rank, y.rank with
  | some a, some b => rankLe b a
  | _, _ => false

/-- A judge gives verdicts on the candidates that it is shown. -/
structure ConflictJudge where
  judge : ConflictCandidate → List ConflictCandidate → List ConflictVerdict
  named : ∀ incoming existing, ∀ verdict ∈ judge incoming existing,
    ∃ candidate ∈ existing, candidate.memoryId = verdict.memoryId

namespace ConflictJudge

/-- This is `NullConflictJudge`. -/
def null : ConflictJudge where
  judge _ _ := []
  named _ _ _ inside := absurd inside List.not_mem_nil

/-- This is `min(1.0, max(0.0, confidence))`. -/
def clamp (confidence : PyFloat) : PyFloat :=
  let raised := if Retrieval.zeroPointZero.lt confidence then confidence else Retrieval.zeroPointZero
  if raised.lt onePointZero then raised else onePointZero

def relationOf : Option Json → Option ConflictRelation
  | some (.str text) =>
      if text = "contradicts".toList then some .contradicts
      else if text = "supersedes".toList then some .supersedes else none
  | _ => none

/-- The index must be an integer and not a bool. -/
def candidateAt (existing : List ConflictCandidate) : Option Json → Option ConflictCandidate
  | some (.int index) => if 0 ≤ index then existing[index.toNat]? else none
  | _ => none

/-- This is one round of `_parse`, which drops what is not usable. The first argument is `float`, where
`none` stands for its exceptions. -/
def parseOne (float : Json → Option PyFloat) (existing : List ConflictCandidate) (minConfidence : PyFloat)
    (raw : Json) : Option ConflictVerdict :=
  match raw with
  | .obj members => do
      let relation ← relationOf (Dict.get? members "relation".toList)
      let candidate ← candidateAt existing (Dict.get? members "index".toList)
      let confidence ← float
        ((Dict.get? members "confidence".toList).getD (.float Retrieval.zeroPointZero))
      if confidence.lt minConfidence then none
      else some ⟨candidate.memoryId, relation, clamp confidence⟩
  | _ => none

/-- This is `_parse` for the object that the model returned. -/
def parse (float : Json → Option PyFloat) (payload : Option JsonDict)
    (existing : List ConflictCandidate) (minConfidence : PyFloat) : List ConflictVerdict :=
  match payload.bind fun members => Dict.get? members "verdicts".toList with
  | some (.arr items) => items.filterMap (parseOne float existing minConfidence)
  | _ => []

theorem parse_named (float : Json → Option PyFloat) (payload : Option JsonDict)
    (existing : List ConflictCandidate) (minConfidence : PyFloat) (verdict : ConflictVerdict)
    (inside : verdict ∈ parse float payload existing minConfidence) :
    ∃ candidate ∈ existing, candidate.memoryId = verdict.memoryId := by
  rw [parse] at inside
  split at inside
  · obtain ⟨raw, _, parsed⟩ := List.mem_filterMap.mp inside
    rw [parseOne.eq_def] at parsed
    split at parsed
    · simp only [bind, Option.bind_eq_some_iff] at parsed
      obtain ⟨relation, _, candidate, found, confidence, _, made⟩ := parsed
      split at made
      · exact absurd made (by simp)
      · rw [candidateAt.eq_def] at found
        split at found
        · split at found
          · exact ⟨candidate, List.mem_of_getElem? found, by rw [← Option.some.inj made]⟩
          · exact absurd found (by simp)
        · exact absurd found (by simp)
    · exact absurd parsed (by simp)
  · exact absurd inside List.not_mem_nil

/-- This is `LLMConflictJudge`, where the model may fail or return no object. -/
def llm (complete : ConflictCandidate → List ConflictCandidate → Option JsonDict)
    (float : Json → Option PyFloat) (minConfidence : PyFloat) : ConflictJudge where
  judge incoming existing := parse float (complete incoming existing) existing minConfidence
  named incoming existing := parse_named float (complete incoming existing) existing minConfidence

end ConflictJudge

namespace MemoryRepo

variable (engine : SearchEngine) (complement : PyFloat → PyFloat)

/-- This is the filter of `list_conflict_candidates`. -/
def isConflictCandidate (memory m : Memory) : Bool :=
  m.live && m.reviewStatus == .approved && m.embedding.isSome && m.orgId == memory.orgId &&
    m.scopeType == memory.scopeType && m.scopeId == memory.scopeId && m.kind == memory.kind &&
      m.id != memory.id

/-- This is `1 - (m.embedding <=> vector)`. -/
def similarity (vector : List PyFloat) (m : Memory) : PyFloat :=
  complement (engine.distance (m.embedding.getD []) vector)

/-- This is `list_conflict_candidates` for a superuser, without the similarities. -/
def listConflictCandidates (db : Database) (memory : Memory) (limit : Nat) (minSimilarity : PyFloat) :
    List Memory :=
  match memory.embedding with
  | none => []
  | some vector =>
      let nearest := ((db.memories.rows.filter (isConflictCandidate memory)).insertionSort
        (Retrieval.nearestFirst engine vector)).take limit
      (nearest.filter fun m => (similarity engine complement vector m).ge minSimilarity).insertionSort
        (Retrieval.bestFirst (similarity engine complement vector))

end MemoryRepo

/-- The mark of a conflict check changes no other column but the time of the last update. -/
def Memory.marked (now : Instant) (m : Memory) : Memory := { m with updatedAt := now }

theorem Memory.marked_ident (now : Instant) (m : Memory) :
    ((m.marked now).id, (m.marked now).publicId) = (m.id, m.publicId) := rfl

namespace ConflictTask

def judgedKinds : List MemoryKind := [.fact, .preference, .decision]

/-- This is `_RELATION_TO_LINK`. -/
def linkTypeOf : ConflictRelation → Option MemoryLinkType
  | .none => none
  | .contradicts => some .contradicts
  | .supersedes => some .supersedes

/-- This is `_as_candidate`. -/
def asCandidate (m : Memory) : ConflictCandidate where
  memoryId := m.id
  publicId := m.publicId.str
  title := m.title
  body := m.body
  createdAt := m.createdAt

/-- A run of the task finds the clock, the quota of each memory and the answers of the judge. -/
structure Detection where
  now : Instant
  withinQuota : Memory → Bool
  judge : ConflictCandidate → List ConflictCandidate → List ConflictVerdict

/-- The judge was asked about a memory and its neighbours, and its verdicts became links. -/
structure Judgement where
  incoming : ConflictCandidate
  existing : List ConflictCandidate
  verdicts : List ConflictVerdict
  links : List MemoryLink

/-- The store comes with the column `conflict_checked_at` and the judgements that were committed. -/
structure State where
  worker : EmbeddingTask.Worker
  checkedAt : Nat → Option Instant
  judged : List Judgement

def State.db (s : State) : Database := s.worker.session.db

/-- The task has not run yet. -/
def State.start (worker : EmbeddingTask.Worker) (checkedAt : Nat → Option Instant) : State :=
  ⟨worker, checkedAt, []⟩

/-- These are the links that the task has written. -/
def State.written (s : State) : List MemoryLink := s.judged.flatMap Judgement.links

variable (env : Environment) (engine : SearchEngine) (complement : PyFloat → PyFloat)

/-- The memory waits for its conflict check. -/
def awaitsCheck (checkedAt : Nat → Option Instant) (m : Memory) : Bool :=
  m.live && (checkedAt m.id).isNone && m.embedding.isSome && judgedKinds.contains m.kind

/-- This is `list_pending_conflict_check` for the worker. -/
def listPendingConflictCheck (s : State) : List Memory :=
  ((s.db.memories.rows.filter (awaitsCheck s.checkedAt)).insertionSort MemoryRepo.newestFirst).take
    env.settings.conflictBatchSize

/-- This is `list_conflict_candidates` with the arguments of the task. -/
def neighbours (db : Database) (memory : Memory) : List Memory :=
  MemoryRepo.listConflictCandidates engine complement db memory env.settings.conflictMaxCandidates
    env.settings.conflictSimilarityThreshold

/-- This is the loop over the verdicts on a memory. Both ends of a link are memories, so the flush
raises at an id that no memory has. -/
def linkVerdicts (now : Instant) (memoryId : Nat) (db : Database) :
    List ConflictVerdict → Option (List MemoryLink × Database)
  | [] => some ([], db)
  | verdict :: rest =>
      match linkTypeOf verdict.relation with
      | none => linkVerdicts now memoryId db rest
      | some linkType =>
          if db.memories.rows.any fun m => m.id == verdict.memoryId then do
            let (link, db) ← MemoryLinkRepo.link now db memoryId verdict.memoryId linkType
              verdict.confidence
            let (links, db) ← linkVerdicts now memoryId db rest
            return (link :: links, db)
          else none

variable (d : Detection)

/-- This is the loop over the pending memories, with the ids that were checked and the judgements. -/
def checkAll (db : Database) : List Memory → Option (List Nat × List Judgement × Database)
  | [] => some ([], [], db)
  | memory :: rest =>
      if d.withinQuota memory then
        let existing := (neighbours env engine complement db memory).map asCandidate
        if existing = [] then do
          let (checked, judged, db) ← checkAll db rest
          return (memory.id :: checked, judged, db)
        else do
          let verdicts := d.judge (asCandidate memory) existing
          let (links, db) ← linkVerdicts d.now memory.id db verdicts
          let (checked, judged, db) ← checkAll db rest
          return (memory.id :: checked, ⟨asCandidate memory, existing, verdicts, links⟩ :: judged, db)
      else checkAll db rest

def State.withDb (s : State) (db : Database) : State :=
  { s with worker := { s.worker with session := { s.worker.session with db := db } } }

def markRows (db : Database) (now : Instant) (ids : List Nat) : Database :=
  { db with
    memories := db.memories.update (fun m => ids.contains m.id) (Memory.marked now)
      (Memory.marked_ident now) }

/-- This is `mark_conflict_checked`. -/
def markConflictChecked (s : State) (ids : List Nat) : State :=
  { s.withDb (markRows s.db d.now ids) with
    checkedAt := fun id => if ids.contains id then some d.now else s.checkedAt id }

/-- This is `_detect_batch`; an exception rolls the whole batch back. -/
def detectBatch (s : State) : State :=
  if env.settings.conflictDetection then
    match checkAll env engine complement d s.db (listPendingConflictCheck env s) with
    | none => s
    | some (checked, judged, db) =>
        markConflictChecked d { s.withDb db with judged := s.judged ++ judged } checked
  else s

inductive Event where
  | worker (e : EmbeddingTask.Event)
  | detect (d : Detection)

/-- These are the steps of the service, of the embedder and of the conflict task. -/
def step (s : State) : Event → State
  | .worker e => { s with worker := EmbeddingTask.step env s.worker e }
  | .detect d => detectBatch env engine complement d s

end ConflictTask
end Kortex
