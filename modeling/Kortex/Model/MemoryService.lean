import Kortex.Model.MemoryRepo
import Kortex.Model.PiiDetector
import Kortex.Model.TrustPolicy

/-
This file models `MemoryService`: the write path with its governance, and the edits.
-/

namespace Kortex

structure CreateMemoryInput where
  scope : ScopeFilter
  body : Str
  title : Str := []
  kind : MemoryKind := .fact
  sensitivity : Sensitivity := .internal
  sourceType : MemorySource := .manual
  sourceRef : Option JsonDict := none
  importance : PyFloat := zeroPointFive
  pinned : Bool := false
  metadata : Option JsonDict := none
  expiresAt : Option Instant := none
  confidence : Option PyFloat := none

/-- This is the outcome of a write. -/
structure MemoryWrite where
  memory : Memory
  deduped : Bool
  piiFlags : Dict Str Nat := []
  redacted : Bool := false
  pendingReview : Bool := false
  reviewReason : Str := []

inductive ServiceError where
  | accessDenied (message : Str)
  | quotaExceeded (message : Str)
  | valueError (message : Str)
  | embeddingError
  | databaseError

/-- These are the caches of one instance of the service. -/
structure ServiceCache where
  orgPlan : Option Str := none
  memCount : Option Nat := none
  projectSettings : Dict Nat (ReviewMode × Str) := []

/-- A session has the database and the service that works on it. -/
structure Session where
  db : Database
  service : ServiceCache := {}

namespace MemoryService

variable (env : Environment) (p : Principal) (ctx : CallContext)

def requireScope (name : Str) : Except ServiceError Unit :=
  if p.hasKeyScope name then .ok ()
  else .error (.accessDenied ("api key missing required scope '" ++ name ++ "'"))

/-- This is `_require_write`. -/
def requireWrite (m : Memory) : Except ServiceError Unit :=
  let scope : ScopeRef := ⟨m.scopeType, m.scopeId⟩
  if AccessControl.canWrite p ⟨scope, m.sensitivity⟩ then .ok ()
  else .error (.accessDenied ("cannot modify " ++ m.sensitivity.value ++ " memory in " ++ scope.str))

/-- This is the check of `write` on the requested sensitivity. -/
def requireCreate (payload : CreateMemoryInput) : Except ServiceError Unit :=
  if AccessControl.canWrite p ⟨payload.scope.ref, payload.sensitivity⟩ then .ok ()
  else .error (.accessDenied ("cannot write " ++ payload.sensitivity.value ++ " memory in " ++
    payload.scope.ref.str))

/-- This is the check of `update` on a new sensitivity. -/
def requireSensitivity (m : Memory) (sensitivity : Option Sensitivity) : Except ServiceError Unit :=
  match sensitivity with
  | none => .ok ()
  | some sensitivity =>
      if AccessControl.canWrite p ⟨⟨m.scopeType, m.scopeId⟩, sensitivity⟩ then .ok ()
      else .error (.accessDenied ("cannot set sensitivity " ++ sensitivity.value))

/-- This is the plan of the org of the principal; an org that is missing is free. -/
def orgPlan (db : Database) (service : ServiceCache) : Str :=
  service.orgPlan.getD (((db.orgs.find? fun o => o.id == p.orgId && o.deletedAt.isNone).map
    Org.plan).getD "free")

/-- This is `_enforce_memory_quota`. -/
def enforceMemoryQuota (db : Database) (service : ServiceCache) : Except ServiceError ServiceCache :=
  let plan := orgPlan p db service
  let cap := maxMemories plan
  if cap < 0 then .ok { service with orgPlan := some plan }
  else
    let count := service.memCount.getD (MemoryRepo.countForOrg db p.orgId)
    if cap ≤ count then
      .error (.quotaExceeded ("memory limit reached for the " ++ plan ++ " plan (" ++
        Str.groupThousands (Str.ofInt cap) ++ " memories). Upgrade your plan to store more."))
    else .ok { service with orgPlan := some plan, memCount := some (count + 1) }

def defaultTsConfig : Str := "english"

/-- This is `ProjectRepository.get_by_id`. -/
def projectById (db : Database) (projectId : Nat) : Option Project :=
  (tenantQuery Project.orgId p db.projects).find? fun project =>
    project.id == projectId && project.deletedAt.isNone

/-- This is `_project_config`, with the cache that it leaves. -/
def projectConfig (db : Database) (service : ServiceCache) (scope : ScopeFilter) :
    (ReviewMode × Str) × ServiceCache :=
  if scope.scopeType ≠ .project then ((.off, defaultTsConfig), service)
  else match Dict.get? service.projectSettings scope.scopeId with
    | some config => (config, service)
    | none =>
        let config := ((projectById p db scope.scopeId).map fun project =>
          (project.reviewMode, project.textSearchConfig)).getD (.off, defaultTsConfig)
        (config, { service with
          projectSettings := Dict.set service.projectSettings scope.scopeId config })

/-- This is the text that a write stores, with what the PII scan found. -/
structure Screened where
  title : Str
  body : Str
  sensitivity : Sensitivity
  findings : Dict Str Nat := []
  redacted : Bool := false

/-- This is the part of `write` that applies the PII policy. -/
def screen (payload : CreateMemoryInput) : Screened :=
  let scan := PiiDetector.scan env.unicode
  let found := scan (payload.title ++ "\n" ++ payload.body)
  if env.settings.piiDetection ∧ found ≠ [] then
    match env.settings.piiPolicy with
    | .redact =>
        { title := PiiDetector.redact payload.title (scan payload.title)
          body := PiiDetector.redact payload.body (scan payload.body)
          sensitivity := payload.sensitivity
          findings := PiiDetector.summarise found
          redacted := true }
    | .escalate =>
        { title := payload.title
          body := payload.body
          sensitivity := if payload.sensitivity = .public ∨ payload.sensitivity = .internal then
            .confidential else payload.sensitivity
          findings := PiiDetector.summarise found }
    | .tag =>
        { title := payload.title
          body := payload.body
          sensitivity := payload.sensitivity
          findings := PiiDetector.summarise found }
  else { title := payload.title, body := payload.body, sensitivity := payload.sensitivity }

/-- This is the part of `write` that decides on a review. -/
def reviewDecision (payload : CreateMemoryInput) (screened : Screened) (mode : ReviewMode) :
    ReviewDecision :=
  let verdict := if env.settings.injectionQuarantine then
      shouldQuarantine env.unicode (trustForSource payload.sourceType)
        (screened.title ++ "\n" ++ screened.body)
    else { suspicious := false }
  decideReview env.twoDecimals mode payload.confidence env.settings.reviewConfidenceThreshold
    (if verdict.suspicious then verdict.reason else [])

/-- This is the embedding that `write` takes when it is asked to embed inline. -/
def inlineEmbedding (payload : CreateMemoryInput) (embedInline : Bool) :
    Except ServiceError (Option (List PyFloat)) :=
  let stripped := Str.strip (payload.title ++ "\n" ++ payload.body)
  if embedInline then
    match env.embed (if stripped = [] then payload.body else stripped) with
    | some vector => .ok (some vector)
    | none => .error .embeddingError
  else .ok none

/-- This is the fingerprint of the text that is stored. -/
def fingerprint (screened : Screened) : Option Str :=
  if env.settings.dedupOnWrite then some (contentHash env screened.title screened.body) else none

/-- This is the row that `MemoryRepository.create` inserts. -/
def newRow (payload : CreateMemoryInput) (screened : Screened) (review : ReviewDecision)
    (tsConfig : Str) (embedding : Option (List PyFloat)) : Memory where
  id := 0
  publicId := ctx.newPublicId
  orgId := p.orgId
  scopeType := payload.scope.scopeType
  scopeId := payload.scope.scopeId
  createdBy := p.userId
  sourceType := payload.sourceType
  sourceRef := payload.sourceRef
  kind := payload.kind
  title := screened.title
  body := screened.body
  tier := .short
  sensitivity := screened.sensitivity
  importance := payload.importance
  pinned := payload.pinned
  accessCount := 0
  lastAccessedAt := none
  decayScore := onePointZero
  embedding := embedding
  embeddingModel := embedding.map fun _ => env.embedderModelId
  tsConfig := tsConfig
  trust := trustForSource payload.sourceType
  piiFlags := screened.findings
  reviewStatus := review.status
  reviewReason := if review.reason = [] then none else some review.reason
  reviewedAt := none
  reviewedBy := none
  confidence := payload.confidence
  contentHash := fingerprint env screened
  metadata := payload.metadata.getD []
  expiresAt := payload.expiresAt
  createdAt := ctx.now
  updatedAt := ctx.now
  deletedAt := none

/-- The flush either gives a result or the database refuses it. -/
def flush {α : Type} (result : Option α) : Except ServiceError α :=
  match result with
  | some value => .ok value
  | none => .error .databaseError

/-- This is the insert at the end of `write`. -/
def store (db : Database) (service : ServiceCache) (payload : CreateMemoryInput)
    (embed : Bool) (screened : Screened) (review : ReviewDecision) (tsConfig : Str) :
    Except ServiceError (MemoryWrite × Session) := do
  let service ← enforceMemoryQuota p db service
  let embedding ← inlineEmbedding env payload embed
  let (created, db) ← flush (db.insertMemory
    (newRow env p ctx payload screened review tsConfig embedding) ctx.idGap)
  return ({ memory := created, deduped := false, piiFlags := screened.findings
            redacted := screened.redacted, pendingReview := review.held
            reviewReason := review.reason }, ⟨db, service⟩)

/-- This is the memory that an unforced write folds into. -/
def duplicateOf (db : Database) (scope : ScopeFilter) (screened : Screened) (force : Bool) :
    Option Memory :=
  if force then none
  else (fingerprint env screened).bind (MemoryRepo.findByContentHash p db scope)

/-- This is `write`. -/
def write (s : Session) (payload : CreateMemoryInput) (embed force : Bool) :
    Except ServiceError (MemoryWrite × Session) := do
  requireScope p "write:memory"
  requireCreate p payload
  let screened := screen env payload
  let (config, service) := projectConfig p s.db s.service payload.scope
  let review := reviewDecision env payload screened config.1
  match duplicateOf env p s.db payload.scope screened force with
  | some existing =>
      let (memory, db) ← flush (MemoryRepo.recordDuplicate ctx.now s.db existing payload.metadata)
      return ({ memory := memory, deduped := true }, ⟨db, service⟩)
  | none => store env p ctx s.db service payload embed screened review config.2

/-- This is the audit entry about a memory; the database refuses an address that is none. -/
def auditMemory (db : Database) (action : Str) (m : Memory)
    (metadata : JsonDict) : Except ServiceError Database :=
  let stored (fields : AuditFields JsonDict) : Option (AuditFields JsonDict) :=
    match fields.ip with
    | none => some fields
    | some ip => (env.inet ip).map fun canonical => { fields with ip := some canonical }
  match Audit.append (Audit.digestStored env.sha256) stored db.audit
      { actorKind := p.actorKind, actorId := some p.actorId, action := action
        targetType := some "memory", targetId := some m.id, metadata := some metadata
        principalOrg := some p.orgId, originIp := ctx.originIp, originAgent := ctx.originAgent
        now := ctx.now, idGap := ctx.auditGap } with
  | .ok audit => .ok { db with audit := audit }
  | .error (.valueError message) => .error (.valueError message)
  | .error .databaseError => .error .databaseError

/-- This is `review`. -/
def review (s : Session) (publicId : Uuid) (approve : Bool) :
    Except ServiceError (Option Memory × Session) := do
  requireScope p "write:memory"
  match MemoryRepo.getByPublicId p s.db publicId with
  | none => return (none, s)
  | some m =>
      requireWrite p m
      if m.reviewStatus ≠ .pending then return (some m, s)
      else
        let status := if approve then .approved else .rejected
        let db := MemoryRepo.setReviewStatus ctx.now s.db m status p.userId
        let action := if approve then "memory.review.approved" else "memory.review.rejected"
        let db ← auditMemory env p ctx db action.toList m
          [("reason", .str (m.reviewReason.getD [])), ("scope_id", .int m.scopeId)]
        return (some (m.withReview ctx.now status p.userId), { s with db := db })

/-- This is `update`. -/
def update (s : Session) (publicId : Uuid) (patch : MemoryPatch) :
    Except ServiceError (Option Memory × Session) := do
  requireScope p "write:memory"
  match MemoryRepo.getByPublicId p s.db publicId with
  | none => return (none, s)
  | some m =>
      requireWrite p m
      requireSensitivity p m patch.sensitivity
      let (row, db) ← flush (MemoryRepo.updateFields ctx.now s.db m patch)
      return (some row, { s with db := db })

/-- This is `delete`. -/
def delete (s : Session) (publicId : Uuid) : Except ServiceError (Bool × Session) := do
  requireScope p "write:memory"
  match MemoryRepo.getByPublicId p s.db publicId with
  | none => return (false, s)
  | some m =>
      requireWrite p m
      let db ← auditMemory env p ctx (MemoryRepo.softDelete ctx.now s.db m) "memory.deleted" m
        [("public_id", .str m.publicId.str), ("title", .str (m.title.take 200))]
      return (true, { s with db := db })

/-- This is `set_pinned`. -/
def setPinned (s : Session) (publicId : Uuid) (pinned : Bool) :
    Except ServiceError (Option Memory × Session) := do
  requireScope p "write:memory"
  match MemoryRepo.getByPublicId p s.db publicId with
  | none => return (none, s)
  | some m =>
      requireWrite p m
      return (some (m.withPinned ctx.now pinned),
        { s with db := MemoryRepo.setPinned ctx.now s.db m pinned })

/-- These are the calls that write or edit memories. -/
inductive Call where
  | write (payload : CreateMemoryInput) (embed force : Bool)
  | update (publicId : Uuid) (patch : MemoryPatch)
  | setPinned (publicId : Uuid) (pinned : Bool)
  | review (publicId : Uuid) (approve : Bool)
  | delete (publicId : Uuid)

inductive Outcome where
  | written (result : MemoryWrite)
  | memory (m : Option Memory)
  | deleted (done : Bool)

/-- A request makes one call for a principal, on a new instance of the service or on the last one. -/
structure Request where
  principal : Principal
  context : CallContext
  newService : Bool
  call : Call

def Session.renew (s : Session) (newService : Bool) : Session :=
  if newService then ⟨s.db, {}⟩ else s

def perform (s : Session) : Call → Except ServiceError (Outcome × Session)
  | .write payload embed force =>
      (write env p ctx s payload embed force).map fun result => (.written result.1, result.2)
  | .update publicId patch =>
      (update p ctx s publicId patch).map fun result => (.memory result.1, result.2)
  | .setPinned publicId pinned =>
      (setPinned p ctx s publicId pinned).map fun result => (.memory result.1, result.2)
  | .review publicId approve =>
      (review env p ctx s publicId approve).map fun result => (.memory result.1, result.2)
  | .delete publicId =>
      (delete env p ctx s publicId).map fun result => (.deleted result.1, result.2)

def respond (s : Session) (r : Request) : Except ServiceError (Outcome × Session) :=
  perform env r.principal r.context (Session.renew s r.newService) r.call

/-- An exception rolls the session back and ends the life of the service. -/
def afterCall {α : Type} (s : Session) (result : Except ServiceError (α × Session)) : Session :=
  match result with
  | .ok (_, s') => s'
  | .error _ => ⟨s.db, {}⟩

def step (s : Session) (r : Request) : Session := afterCall s (respond env s r)

end MemoryService
end Kortex
