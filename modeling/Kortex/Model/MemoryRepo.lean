import Kortex.Model.Database

/-
This file models `MemoryRepository` but its search.
-/

namespace Kortex

/-- What a call finds outside its arguments: the clock, the next keys and the request context. -/
structure CallContext where
  now : Instant
  newPublicId : Uuid
  idGap : Nat := 0
  auditGap : Nat := 0
  originIp : Option Str := none
  originAgent : Option Str := none

structure ScopeFilter where
  scopeType : ScopeType
  scopeId : Nat
deriving DecidableEq

def ScopeFilter.ref (scope : ScopeFilter) : ScopeRef := ⟨scope.scopeType, scope.scopeId⟩

def Memory.inScope (m : Memory) (scope : ScopeFilter) : Bool :=
  m.scopeType == scope.scopeType && m.scopeId == scope.scopeId

/-- This is `Memory.sensitivity.in_(_sensitivities_up_to(max_sensitivity))`. -/
def Memory.upTo (m : Memory) (maxSensitivity : Sensitivity) : Bool :=
  decide (m.sensitivity.rank ≤ maxSensitivity.rank)

namespace MemoryRepo

variable (p : Principal) (db : Database)

/-- These are the rows of `tenant_query` that are not deleted, in the order of their ids. -/
def liveRows : List Memory := (tenantQuery Memory.orgId p db.memories.rows).filter Memory.live

def getByPublicId (publicId : Uuid) : Option Memory :=
  (liveRows p db).find? fun m => m.publicId == publicId

def getById (memoryId : Nat) : Option Memory := (liveRows p db).find? fun m => m.id == memoryId

def countForOrg (orgId : Nat) : Nat :=
  (db.memories.rows.filter fun m => m.orgId == orgId && m.live).length

/-- The newest rows come first. -/
def newestFirst (a b : Memory) : Prop := b.createdAt ≤ a.createdAt

instance : DecidableRel newestFirst := fun a b => inferInstanceAs (Decidable (b.createdAt ≤ a.createdAt))

/-- This is `list_`. -/
def list_ (scope : Option ScopeFilter) (tier : Option MemoryTier) (kind : Option MemoryKind)
    (limit offset : Nat) (maxSensitivity : Option Sensitivity) : List Memory :=
  (((((liveRows p db).filter fun m => m.reviewStatus == .approved &&
    scope.all m.inScope && tier.all (· == m.tier) && kind.all (· == m.kind) &&
    maxSensitivity.all m.upTo).insertionSort newestFirst).drop offset).take limit)

/-- This is `find_by_metadata`: the first row in which the member has the text. -/
def findByMetadata (scope : ScopeFilter) (key value : Str) : Option Memory :=
  (liveRows p db).find? fun m => m.inScope scope &&
    (Dict.get? m.metadata key).bind Json.astext == some value

/-- This is `list_by_metadata_key`. -/
def listByMetadataKey (scope : ScopeFilter) (key : Str) (limit : Nat := 1000) : List Memory :=
  ((liveRows p db).filter fun m => m.inScope scope &&
    ((Dict.get? m.metadata key).bind Json.astext).isSome).take limit

/-- The oldest rows come first. -/
def oldestFirst (a b : Memory) : Prop := a.createdAt ≤ b.createdAt

instance : DecidableRel oldestFirst := fun a b => inferInstanceAs (Decidable (a.createdAt ≤ b.createdAt))

/-- This is `find_by_content_hash`. -/
def findByContentHash (scope : ScopeFilter) (contentHash : Str) : Option Memory :=
  (((liveRows p db).filter fun m => m.inScope scope &&
    m.contentHash == some contentHash).insertionSort oldestFirst).head?

/-- This is `list_by_ids`, which also returns deleted rows. -/
def listByIds (memoryIds : List Nat) : List Memory :=
  (tenantQuery Memory.orgId p db.memories.rows).filter fun m => memoryIds.contains m.id

end MemoryRepo

/-- This is what `soft_delete` makes of a row. -/
def Memory.softDeleted (now : Instant) (m : Memory) : Memory :=
  { m with deletedAt := some now, updatedAt := now }

theorem Memory.softDeleted_ident (now : Instant) (m : Memory) :
    ((m.softDeleted now).id, (m.softDeleted now).publicId) = (m.id, m.publicId) := rfl

def Memory.withPinned (now : Instant) (pinned : Bool) (m : Memory) : Memory :=
  { m with pinned := pinned, updatedAt := now }

theorem Memory.withPinned_ident (now : Instant) (pinned : Bool) (m : Memory) :
    ((m.withPinned now pinned).id, (m.withPinned now pinned).publicId) = (m.id, m.publicId) := rfl

def Memory.withReview (now : Instant) (status : ReviewStatus) (reviewerId : Option Nat) (m : Memory) :
    Memory :=
  { m with reviewStatus := status, reviewedAt := some now, reviewedBy := reviewerId, updatedAt := now }

theorem Memory.withReview_ident (now : Instant) (status : ReviewStatus) (reviewerId : Option Nat)
    (m : Memory) : ((m.withReview now status reviewerId).id,
      (m.withReview now status reviewerId).publicId) = (m.id, m.publicId) := rfl

/-- This is what `record_duplicate` makes of a row. -/
def Memory.duplicated (now : Instant) (metadata : Option JsonDict) (m : Memory) : Memory :=
  { m with accessCount := m.accessCount + 1, lastAccessedAt := some now, updatedAt := now,
           metadata := Dict.merge m.metadata (metadata.getD []) }

theorem Memory.duplicated_ident (now : Instant) (metadata : Option JsonDict) (m : Memory) :
    ((m.duplicated now metadata).id, (m.duplicated now metadata).publicId) = (m.id, m.publicId) := rfl

/-- These are the arguments of `update_fields`. -/
structure MemoryPatch where
  title : Option Str := none
  body : Option Str := none
  kind : Option MemoryKind := none
  sensitivity : Option Sensitivity := none
  importance : Option PyFloat := none
  metadata : Option JsonDict := none

/-- This is what `update_fields` makes of a row; a new body makes the embedding stale. -/
def Memory.patched (now : Instant) (patch : MemoryPatch) (m : Memory) : Memory :=
  { m with title := patch.title.getD m.title
           body := patch.body.getD m.body
           embedding := if patch.body.isSome then none else m.embedding
           embeddingModel := if patch.body.isSome then none else m.embeddingModel
           kind := patch.kind.getD m.kind
           sensitivity := patch.sensitivity.getD m.sensitivity
           importance := patch.importance.getD m.importance
           metadata := patch.metadata.getD m.metadata
           updatedAt := now }

theorem Memory.patched_ident (now : Instant) (patch : MemoryPatch) (m : Memory) :
    ((m.patched now patch).id, (m.patched now patch).publicId) = (m.id, m.publicId) := rfl

namespace MemoryRepo

variable (now : Instant) (db : Database)

def softDelete (m : Memory) : Database :=
  db.updateMemory m.id (Memory.softDeleted now) (Memory.softDeleted_ident now)

def setPinned (m : Memory) (pinned : Bool) : Database :=
  db.updateMemory m.id (Memory.withPinned now pinned) (Memory.withPinned_ident now pinned)

def setReviewStatus (m : Memory) (status : ReviewStatus) (reviewerId : Option Nat) : Database :=
  db.updateMemory m.id (Memory.withReview now status reviewerId)
    (Memory.withReview_ident now status reviewerId)

/-- This is `record_duplicate`; the columns may refuse the merged row. -/
def recordDuplicate (m : Memory) (metadata : Option JsonDict) : Option (Memory × Database) :=
  let row := m.duplicated now metadata
  if row.storable then
    some (row, db.updateMemory m.id (Memory.duplicated now metadata) (Memory.duplicated_ident now metadata))
  else none

/-- This is `update_fields`; the columns may refuse the new row. -/
def updateFields (m : Memory) (patch : MemoryPatch) : Option (Memory × Database) :=
  let row := m.patched now patch
  if row.storable then
    some (row, db.updateMemory m.id (Memory.patched now patch) (Memory.patched_ident now patch))
  else none

end MemoryRepo
end Kortex
