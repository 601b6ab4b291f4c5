import Kortex.Model.Embedding

/-
This file models the states of the embeddings: the operations that change and count them, and the
runs of `_embed_batch` as transactions.
-/

namespace Kortex

/-- Every UPDATE sets the time of the last update. -/
def Memory.withUpdatedAt (now : Instant) (m : Memory) : Memory := { m with updatedAt := now }

theorem Memory.withUpdatedAt_ident (now : Instant) (m : Memory) :
    ((m.withUpdatedAt now).id, (m.withUpdatedAt now).publicId) = (m.id, m.publicId) := rfl

namespace EmbeddingQueue

open EmbeddingTask

/-- These are the tables with the columns of the embedder, and the settings of the moment. -/
structure Queue where
  env : Environment
  session : Session
  retry : Nat → EmbedRetry

namespace Queue

variable (q : Queue)

/-- The worker on these tables has no run in flight. -/
def worker : Worker := ⟨q.session, q.retry, fun _ => .idle⟩

def rows : List Memory := q.session.db.memories.rows

def withWorker (w : Worker) : Queue := { q with session := w.session, retry := w.retry }

def withDb (db : Database) : Queue := { q with session := { q.session with db := db } }

/-- The rows with these ids get the time of their last update. -/
def touch (now : Instant) (ids : List Nat) : Queue :=
  q.withDb { q.session.db with
    memories := q.session.db.memories.update (fun m => ids.contains m.id)
      (Memory.withUpdatedAt now) (Memory.withUpdatedAt_ident now) }

/-- This is the model that the embeddings should be of. -/
def configuredModel : Str := q.env.settings.embedderModel

end Queue

/-- This is `list_pending_embedding` for the worker. -/
def listPendingEmbedding (q : Queue) (now : Instant) : List Memory := listPending q.env q.worker now

/-- This is `set_embedding`. -/
def setEmbedding (q : Queue) (now : Instant) (memoryId : Nat) (vector : List PyFloat) (modelId : Str) :
    Queue :=
  q.withWorker (EmbeddingTask.setEmbedding q.worker now memoryId vector modelId)

/-- This is the body of the loop of `record_embed_failure`. -/
def recordFailure (now : Instant) (error : Str) (q : Queue) (m : Memory) : Queue :=
  (q.withWorker (recordEmbedFailure q.env q.worker now ⟨m, (q.retry m.id).attempts⟩ error)).touch now
    [m.id]

/-- This is `record_embed_failure` for the worker, who reads all orgs. -/
def recordEmbedFailures (q : Queue) (now : Instant) (memoryIds : List Nat) (error : Str) : Queue :=
  (q.rows.filter fun m => memoryIds.contains m.id).foldl (recordFailure now error) q

/-- The memory is parked, and the reset is for its org. -/
def released (q : Queue) (orgId : Option Nat) (m : Memory) : Bool :=
  m.live && (q.retry m.id).failedAt.isSome && orgId.all (m.orgId == ·)

/-- These are the ids that `reset_embed_failures` selects. -/
def releasedIds (q : Queue) (orgId : Option Nat) : List Nat :=
  (q.rows.filter (released q orgId)).map Memory.id

/-- This is `reset_embed_failures` for the worker. -/
def resetEmbedFailures (q : Queue) (now : Instant) (orgId : Option Nat) : Queue :=
  { q.touch now (releasedIds q orgId) with
    retry := fun id => if id ∈ releasedIds q orgId then {} else q.retry id }

/-- This is a change of `embedder_model` in the settings. -/
def changeModel (q : Queue) (model : Str) : Queue :=
  { q with env := { q.env with settings := { q.env.settings with embedderModel := model } } }

/-- These are the three filters of `embed_status_counts`. -/
def countsPending (q : Queue) (m : Memory) : Bool :=
  m.embedding.isNone && (q.retry m.id).failedAt.isNone

def countsFailed (q : Queue) (m : Memory) : Bool := (q.retry m.id).failedAt.isSome

def countsOk (q : Queue) (m : Memory) : Bool :=
  m.embedding.isSome && m.embeddingModel == some q.configuredModel

/-- This is `EmbedStatus` without the age of the oldest memory. -/
structure EmbedStatus where
  pending : Nat
  failed : Nat
  ok : Nat

/-- This is `embed_status_counts`; a superuser counts the memories of every org. -/
def embedStatusCounts (q : Queue) (p : Principal) : EmbedStatus :=
  let rows := (tenantQuery Memory.orgId p q.rows).filter Memory.live
  ⟨rows.countP (countsPending q), rows.countP (countsFailed q), rows.countP (countsOk q)⟩

/-- These are the operations that change the states. -/
inductive Event where
  | turn (t : MemoryTool.Turn)
  | setEmbedding (now : Instant) (memoryId : Nat) (vector : List PyFloat) (modelId : Str)
  | recordEmbedFailure (now : Instant) (memoryIds : List Nat) (error : Str)
  | resetEmbedFailures (now : Instant) (orgId : Option Nat)
  | changeModel (model : Str)

def step (q : Queue) : Event → Queue
  | .turn t => { q with session := MemoryTool.turn q.env q.session t }
  | .setEmbedding now memoryId vector modelId => setEmbedding q now memoryId vector modelId
  | .recordEmbedFailure now memoryIds error => recordEmbedFailures q now memoryIds error
  | .resetEmbedFailures now orgId => resetEmbedFailures q now orgId
  | .changeModel model => changeModel q model

/-- An attempt at a memory gave it a vector or an `EmbeddingError` with a text, and it is stored at a
time. -/
structure Attempt where
  memory : Memory
  now : Instant
  answer : Except Str (List PyFloat)

/-- What an attempt gave is stored. -/
def store (modelId : Str) (q : Queue) (attempt : Attempt) : Queue :=
  match attempt.answer with
  | .ok vector => setEmbedding q attempt.now attempt.memory.id vector modelId
  | .error error => recordEmbedFailures q attempt.now [attempt.memory.id] error

def storeAll (modelId : Str) (q : Queue) (attempts : List Attempt) : Queue :=
  attempts.foldl (store modelId) q

/-- A run of the task that commits lists its memories at a time, and its attempt at each of them has a
time and an answer. -/
structure Tick where
  listedAt : Instant
  modelId : Str
  attempt : Memory → Instant × Except Str (List PyFloat)

def Tick.attempts (t : Tick) (q : Queue) : List Attempt :=
  (listPendingEmbedding q t.listedAt).map fun m => ⟨m, (t.attempt m).1, (t.attempt m).2⟩

def tick (q : Queue) (t : Tick) : Queue := storeAll t.modelId q (t.attempts q)

/-- These are the exceptions that leave the task. -/
inductive TaskError where
  | indexError
  | databaseError
deriving DecidableEq

/-- A run of the task finds the clock and an embedder, which gives vectors for texts or raises an
`EmbeddingError` with a text. The first argument of both is the number of the call. The column of
the embeddings may refuse a vector. -/
structure Batch where
  embedder : Nat → List Str → Except Str (List (List PyFloat))
  modelId : Str
  column : List PyFloat → Bool
  clock : Nat → Instant

variable (b : Batch)

/-- The database takes what an attempt gave. -/
def stores : Except Str (List PyFloat) → Bool
  | .ok vector => b.column vector && Audit.acceptsColumn 128 (some b.modelId)
  | .error error => PyValue.accepts (error.take 2000)

/-- This stores what an attempt gave, unless the database refuses it. -/
def storeOne (q : Queue) (attempt : Attempt) : Except TaskError Queue :=
  if stores b attempt.answer then .ok (store b.modelId q attempt) else .error .databaseError

/-- This is `_embed_one_by_one`, where the first argument is the number of the next call. -/
def embedOneByOne : Nat → Queue → List Memory → Except TaskError Queue
  | _, q, [] => .ok q
  | n, q, memory :: rest =>
      match b.embedder n [textOf memory] with
      | .error error => do
          embedOneByOne (n + 1) (← storeOne b q ⟨memory, b.clock n, .error error⟩) rest
      | .ok [] => .error .indexError
      | .ok (vector :: _) => do
          embedOneByOne (n + 1) (← storeOne b q ⟨memory, b.clock n, .ok vector⟩) rest

/-- This is the loop over the vectors of the whole batch. -/
def storeBatch : Nat → Queue → List (Memory × List PyFloat) → Except TaskError Queue
  | _, q, [] => .ok q
  | n, q, (memory, vector) :: rest => do
      storeBatch (n + 1) (← storeOne b q ⟨memory, b.clock n, .ok vector⟩) rest

/-- This is `_embed_batch`; an exception rolls the whole run back. -/
def embedBatch (q : Queue) : Except TaskError Queue :=
  let pending := listPendingEmbedding q (b.clock 0)
  if pending = [] then .ok q
  else match b.embedder 0 (pending.map textOf) with
    | .error _ => embedOneByOne b 1 q pending
    | .ok vectors =>
        if vectors.length ≠ pending.length then embedOneByOne b 1 q pending
        else storeBatch b 1 q (pending.zip vectors)

end EmbeddingQueue
end Kortex
