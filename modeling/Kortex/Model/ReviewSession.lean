import Kortex.Model.MemoryService

/-
This file models concurrent calls of `MemoryService.review` for one memory, and the endpoint `bulk` of the
review router. Each call is a transaction that loads the memory, updates its row, appends the audit entry and
commits.
-/

namespace Kortex

/-- This is what the flush of a review makes of a row. It writes the columns in which the decision
differs from the row as it was loaded. -/
def Memory.reviewed (loaded : Memory) (now : Instant) (status : ReviewStatus) (reviewerId : Option Nat)
    (m : Memory) : Memory :=
  { m with reviewStatus := status
           reviewedAt := if loaded.reviewedAt = some now then m.reviewedAt else some now
           reviewedBy := if loaded.reviewedBy = reviewerId then m.reviewedBy else reviewerId
           updatedAt := now }

theorem Memory.reviewed_ident (loaded : Memory) (now : Instant) (status : ReviewStatus)
    (reviewerId : Option Nat) (m : Memory) :
    ((Memory.reviewed loaded now status reviewerId m).id,
      (Memory.reviewed loaded now status reviewerId m).publicId) = (m.id, m.publicId) := rfl

namespace ReviewSession

/-- One call of `review`, with its principal. -/
structure Request where
  principal : Principal
  context : CallContext
  approve : Bool

def Request.status (r : Request) : ReviewStatus := if r.approve then .approved else .rejected

def Request.action (r : Request) : Str :=
  String.toList (if r.approve then "memory.review.approved" else "memory.review.rejected")

/-- This is the part of `review` before `set_review_status`: the memory when it is still pending. -/
def reviewable (p : Principal) (db : Database) (publicId : Uuid) :
    Except ServiceError (Option Memory × Bool) := do
  MemoryService.requireScope p "write:memory"
  match MemoryRepo.getByPublicId p db publicId with
  | none => return (none, false)
  | some m =>
      MemoryService.requireWrite p m
      return (some m, m.reviewStatus = .pending)

/-- This is the database after `set_review_status`, whose statement finds the row by its id. -/
def decided (r : Request) (db : Database) (m : Memory) : Database :=
  db.updateMemory m.id (Memory.reviewed m r.context.now r.status r.principal.userId)
    (Memory.reviewed_ident m r.context.now r.status r.principal.userId)

/-- This is the call of `append` in `review`. -/
def recorded (env : Environment) (r : Request) (db : Database) (m : Memory) :
    Except ServiceError Database :=
  MemoryService.auditMemory env r.principal r.context db r.action m
    [("reason", .str (m.reviewReason.getD [])), ("scope_id", .int m.scopeId)]

/-- These are the steps that a call has made. -/
inductive Phase where
  | arrived
  | loaded (m : Memory)
  /-- The UPDATE locks the row; the transaction has its own database from here on. -/
  | updated (m : Memory) (db : Database)
  | appended (m : Memory) (db : Database)
  | decided (m : Memory)
  /-- The memory was missing or not pending. -/
  | returned (m : Option Memory)
  | failed

structure State where
  db : Database
  holder : Option Nat := none
  phase : Nat → Phase := fun _ => .arrived

/-- A call may also fail at any time. -/
inductive Event where
  | load (i : Nat)
  | update (i : Nat)
  | append (i : Nat)
  | commit (i : Nat)
  | abort (i : Nat)

def State.setPhase (s : State) (i : Nat) (phase : Phase) : State :=
  { s with phase := Function.update s.phase i phase }

def State.fail (s : State) (i : Nat) : State :=
  { s.setPhase i .failed with holder := if s.holder = some i then none else s.holder }

variable (env : Environment) (publicId : Uuid) (requests : Nat → Request)

def load (s : State) (i : Nat) : State :=
  match reviewable (requests i).principal s.db publicId with
  | .ok (some m, true) => s.setPhase i (.loaded m)
  | .ok (m, _) => s.setPhase i (.returned m)
  | .error _ => s.fail i

/-- The UPDATE waits for the lock of its row, which it takes as the last transaction has left it. -/
def update (s : State) (i : Nat) (m : Memory) : State :=
  if s.holder.isSome then s
  else if s.db.memories.rows.any fun row => row.id == m.id then
    { s.setPhase i (.updated m (decided (requests i) s.db m)) with holder := some i }
  else s.fail i

def append (s : State) (i : Nat) (m : Memory) (db : Database) : State :=
  match recorded env (requests i) db m with
  | .ok db => s.setPhase i (.appended m db)
  | .error _ => s.fail i

/-- An event happens in the phase that it belongs to. -/
def step (s : State) : Event → State
  | .load i =>
      match s.phase i with
      | .arrived => load publicId requests s i
      | _ => s
  | .update i =>
      match s.phase i with
      | .loaded m => update requests s i m
      | _ => s
  | .append i =>
      match s.phase i with
      | .updated m db => append env requests s i m db
      | _ => s
  | .commit i =>
      match s.phase i with
      | .appended m db =>
          { db := db, holder := none, phase := Function.update s.phase i (.decided m) }
      | _ => s
  | .abort i =>
      match s.phase i with
      | .decided _ => s
      | .returned _ => s
      | .failed => s
      | _ => s.fail i

end ReviewSession
end Kortex

namespace Kortex

/-- This is `BulkReviewOut`. -/
structure BulkReviewOut where
  reviewed : Nat
  skipped : Nat

namespace ReviewRouter

variable (env : Environment) (p : Principal) (ctx : Nat → CallContext) (approve : Bool)

/-- A row that comes back with a time of review counts as reviewed. -/
def counts (memory : Option Memory) : Bool := memory.any fun m => m.reviewedAt.isSome

/-- The calls of `review` have their own contexts, which are numbered. -/
def reviewAll : Nat → List Uuid → Session → Except ServiceError (Nat × Session)
  | _, [], s => .ok (0, s)
  | i, publicId :: rest, s => do
      let (memory, s) ← MemoryService.review env p (ctx i) s publicId approve
      let (reviewed, s) ← reviewAll (i + 1) rest s
      return ((if counts memory then 1 else 0) + reviewed, s)

/-- This is `bulk`. -/
def bulk (s : Session) (publicIds : List Uuid) : Except ServiceError (BulkReviewOut × Session) := do
  let (reviewed, s) ← reviewAll env p ctx approve 0 publicIds s
  return (⟨reviewed, publicIds.length - reviewed⟩, s)

end ReviewRouter
end Kortex
