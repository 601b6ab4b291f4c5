import Kortex.Model.MemoryTool

/-
This file models the runs of `_embed_batch` in the worker, interleaved with the service.
-/

namespace Kortex

/-- These are the columns of the table `memories` that keep the failures of the embedder. -/
structure EmbedRetry where
  attempts : Nat := 0
  error : Option Str := none
  failedAt : Option Instant := none
  nextAttemptAt : Option Instant := none

/-- This is `RetryDecision`. -/
structure RetryDecision where
  attempts : Nat
  nextAttemptAt : Option Instant
  parked : Bool

def maxBackoffSeconds : Nat := 3600

/-- This is `decide_retry`. -/
def decideRetry (attemptsBefore maxAttempts retryBaseSeconds : Nat) (now : Instant) : RetryDecision :=
  let attempts := attemptsBefore + 1
  if maxAttempts ≤ attempts then ⟨attempts, none, true⟩
  else
    let delay := min (retryBaseSeconds * 2 ^ (attempts - 1)) maxBackoffSeconds
    ⟨attempts, some (now + delay * 1000000), false⟩

/-- This is what `set_embedding` makes of a row. -/
def Memory.embedded (now : Instant) (vector : List PyFloat) (modelId : Str) (m : Memory) : Memory :=
  { m with embedding := some vector, embeddingModel := some modelId, updatedAt := now }

theorem Memory.embedded_ident (now : Instant) (vector : List PyFloat) (modelId : Str) (m : Memory) :
    ((m.embedded now vector modelId).id, (m.embedded now vector modelId).publicId) =
      (m.id, m.publicId) := rfl

namespace EmbeddingTask

/-- A memory that a batch has read comes with the attempts of its row. -/
structure Pending where
  memory : Memory
  attempts : Nat

/-- A run has read its memories, or has the vectors that it still has to store. -/
inductive Phase where
  | idle
  | embedding (pending : List Pending)
  | storing (results : List (Pending × Option (List PyFloat)))

structure Worker where
  session : Session
  retry : Nat → EmbedRetry
  phase : Nat → Phase

inductive Event where
  | turn (t : MemoryTool.Turn)
  | read (run : Nat) (now : Instant)
  | embed (run : Nat)
  | store (run : Nat) (now : Instant) (error : Str)

/-- This is `_text_of`. -/
def textOf (m : Memory) : Str := if m.title = [] then m.body else Str.strip (m.title ++ "\n" ++ m.body)

variable (env : Environment)

/-- The embedding is missing, or another model made it. -/
def stale (m : Memory) : Bool := m.embedding.isNone || m.embeddingModel.any (· != env.settings.embedderModel)

/-- The memory is neither parked nor waits for its next attempt. -/
def eligible (now : Instant) (retry : EmbedRetry) : Bool :=
  retry.failedAt.isNone && retry.nextAttemptAt.all fun next => decide (next ≤ now)

/-- This is `list_pending_embedding` for the worker, who reads all orgs. -/
def listPending (w : Worker) (now : Instant) : List Memory :=
  ((((w.session.db.memories.rows.filter fun m => m.live && stale env m).filter fun m =>
    eligible now (w.retry m.id)).insertionSort MemoryRepo.oldestFirst).take
      env.settings.embedderBatchSize)

namespace Worker

def setPhase (w : Worker) (run : Nat) (phase : Phase) : Worker :=
  { w with phase := Function.update w.phase run phase }

def setRetry (w : Worker) (memoryId : Nat) (retry : EmbedRetry) : Worker :=
  { w with retry := Function.update w.retry memoryId retry }

end Worker

/-- This is `set_embedding`, which forgets the failures of the memory. -/
def setEmbedding (w : Worker) (now : Instant) (memoryId : Nat) (vector : List PyFloat) (modelId : Str) :
    Worker :=
  { w.setRetry memoryId {} with session := { w.session with
      db := w.session.db.updateMemory memoryId (Memory.embedded now vector modelId)
        (Memory.embedded_ident now vector modelId) } }

/-- This is `record_embed_failure` for one memory, with the attempts that the run has read. -/
def recordEmbedFailure (w : Worker) (now : Instant) (pending : Pending) (error : Str) : Worker :=
  let decision := decideRetry pending.attempts env.settings.embedMaxAttempts
    env.settings.embedRetryBaseSeconds now
  w.setRetry pending.memory.id
    { attempts := decision.attempts, error := some (error.take 2000)
      nextAttemptAt := decision.nextAttemptAt
      failedAt := if decision.parked then some now else (w.retry pending.memory.id).failedAt }

/-- These are the steps of the service and of the runs of the worker. A batch that the embedder
refuses is embedded memory by memory, which gives each memory the same vector. The rows that a run
has written stay locked until it commits, so each vector takes effect at its own step. -/
def step (w : Worker) : Event → Worker
  | .turn t => { w with session := MemoryTool.turn env w.session t }
  | .read run now =>
      match w.phase run with
      | .idle =>
          match listPending env w now with
          | [] => w
          | memories => w.setPhase run (.embedding (memories.map fun m => ⟨m, (w.retry m.id).attempts⟩))
      | _ => w
  | .embed run =>
      match w.phase run with
      | .embedding pending =>
          w.setPhase run (.storing (pending.map fun p => (p, env.embed (textOf p.memory))))
      | _ => w
  | .store run now error =>
      match w.phase run with
      | .storing [] => w.setPhase run .idle
      | .storing ((pending, some vector) :: rest) =>
          (setEmbedding w now pending.memory.id vector env.embedderModelId).setPhase run (.storing rest)
      | .storing ((pending, none) :: rest) =>
          (recordEmbedFailure env w now pending error).setPhase run (.storing rest)
      | _ => w

end EmbeddingTask
end Kortex
