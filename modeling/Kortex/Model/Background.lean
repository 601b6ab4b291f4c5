import Kortex.Model.ConflictTask
import Kortex.Model.Decay
import Kortex.Model.EmbeddingQueue

/-
This file models the review inbox, and the tasks that the worker runs in the background: the decay, the
embedder, the conflict task and the consolidation.
-/

namespace Kortex

/-- A held memory waits for its review. -/
def Memory.held (m : Memory) : Bool := m.live && m.reviewStatus == .pending

namespace MemoryRepo

variable (p : Principal) (db : Database)

/-- This is `list_pending_review`. -/
def listPendingReview (limit : Nat := 50) (offset : Nat := 0) : List Memory :=
  ((((liveRows p db).filter fun m => m.reviewStatus == .pending).insertionSort oldestFirst).drop
    offset).take limit

/-- This is `count_pending_review`. -/
def countPendingReview : Nat := ((liveRows p db).filter fun m => m.reviewStatus == .pending).length

end MemoryRepo

namespace Background

/-- These are the tables with the columns of the embedder and of the conflict task. -/
structure State where
  queue : EmbeddingQueue.Queue
  checkedAt : Nat → Option Instant
  judged : List ConflictTask.Judgement := []

namespace State

variable (s : State)

def db : Database := s.queue.session.db

def withDb (db : Database) : State := { s with queue := s.queue.withDb db }

/-- This is what the conflict task reads. -/
def conflicts : ConflictTask.State := ⟨s.queue.worker, s.checkedAt, s.judged⟩

def withConflicts (c : ConflictTask.State) : State :=
  { queue := s.queue.withWorker c.worker, checkedAt := c.checkedAt, judged := c.judged }

end State

/-- These are the numbers of the policy with its settings, and what the conflict task compares by. -/
structure Setup where
  numbers : Decay.Numbers PyFloat
  settings : Decay.Settings PyFloat
  engine : SearchEngine
  complement : PyFloat → PyFloat

/-- These are the runs of the tasks, with what each of them finds. -/
inductive Event where
  | decay (orgId : Nat) (t : DecayTask.Tick)
  | embed (b : EmbeddingQueue.Batch)
  | detect (d : ConflictTask.Detection)
  | consolidate (orgId : Nat) (tools : ConsolidationTask.Tools) (ctx : Nat → CallContext)

variable (setup : Setup)

/-- A run that raises leaves the tables as they were. -/
def step (s : State) : Event → State
  | .decay orgId t => s.withDb (DecayTask.afterTick setup.numbers setup.settings t orgId s.db)
  | .embed b =>
      match EmbeddingQueue.embedBatch b s.queue with
      | .ok q => { s with queue := q }
      | .error _ => s
  | .detect d => s.withConflicts
      (ConflictTask.detectBatch s.queue.env setup.engine setup.complement d s.conflicts)
  | .consolidate orgId tools ctx => s.withDb (ConsolidationTask.afterRun tools orgId ctx s.db)

end Background
end Kortex
