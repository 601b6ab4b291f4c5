import Kortex.Model.MemoryLinks

/-
This file models the consolidation task of the worker, `_consolidate_org`, and the text search
configurations: `set_text_search_config` beside the service and the consolidation task.
-/

namespace Kortex

structure ClusterMember where
  memoryId : Nat
  publicId : Str
  title : Str
  body : Str

structure ConsolidationResult where
  title : Str
  body : Str
  derivedFromIds : List Nat

/-- This is what `apply_decay` makes of a row. -/
def Memory.decayed (now : Instant) (decayScore : PyFloat) (newTier : Option MemoryTier) (m : Memory) :
    Memory :=
  { m with decayScore := decayScore, tier := newTier.getD m.tier, updatedAt := now }

theorem Memory.decayed_ident (now : Instant) (decayScore : PyFloat) (newTier : Option MemoryTier)
    (m : Memory) : ((m.decayed now decayScore newTier).id,
      (m.decayed now decayScore newTier).publicId) = (m.id, m.publicId) := rfl

namespace MemoryRepo

/-- This is `apply_decay`. -/
def applyDecay (now : Instant) (db : Database) (memoryId : Nat) (decayScore : PyFloat)
    (newTier : Option MemoryTier) : Database :=
  db.updateMemory memoryId (Memory.decayed now decayScore newTier)
    (Memory.decayed_ident now decayScore newTier)

/-- The row is a candidate of the nightly clustering. -/
def isCandidate (orgId : Nat) (m : Memory) : Bool :=
  m.orgId == orgId && m.live && !m.pinned && m.tier == .mid && m.embedding.isSome

/-- This is `list_for_consolidation` for a superuser; the rows stand in the order of their ids. -/
def listForConsolidation (db : Database) (orgId : Nat) (limit : Nat := 500) : List Memory :=
  (db.memories.rows.filter (isCandidate orgId)).take limit

end MemoryRepo

namespace ConsolidationTask

/-- The clusterer gives each vector a label. The consolidator may have no result for a cluster. -/
structure Tools where
  cluster : List (List PyFloat) → List Int
  length_cluster : ∀ vectors, (cluster vectors).length = vectors.length
  consolidate : List ClusterMember → Option ConsolidationResult
  /-- This is the product with `0.5`. -/
  half : PyFloat → PyFloat

/-- A row is put into the group of its label; a negative label is noise. -/
def addToGroup (groups : Dict Int (List Memory)) (labelled : Memory × Int) : Dict Int (List Memory) :=
  if labelled.2 < 0 then groups
  else Dict.set groups labelled.2 ((Dict.get? groups labelled.2).getD [] ++ [labelled.1])

/-- These are the `groups` of the candidates. -/
def groupsOf (tools : Tools) (candidates : List Memory) : Dict Int (List Memory) :=
  (candidates.zip (tools.cluster (candidates.filterMap Memory.embedding))).foldl addToGroup []

def clusterMember (m : Memory) : ClusterMember where
  memoryId := m.id
  publicId := m.publicId.str
  title := m.title
  body := m.body

def zeroPointSeven : PyFloat := .finite (floatText "0.7" (by decide) (by decide))

/-- The summary takes its labels from the first member and from the defaults of `create`. -/
def summaryRow (orgId : Nat) (ctx : CallContext) (anchor : Memory) (result : ConsolidationResult) :
    Memory where
  id := 0
  publicId := ctx.newPublicId
  orgId := orgId
  scopeType := anchor.scopeType
  scopeId := anchor.scopeId
  createdBy := none
  sourceType := .derived
  sourceRef := none
  kind := .summary
  title := result.title
  body := result.body
  tier := .short
  sensitivity := anchor.sensitivity
  importance := if anchor.importance.lt zeroPointSeven then zeroPointSeven else anchor.importance
  pinned := false
  accessCount := 0
  lastAccessedAt := none
  decayScore := onePointZero
  embedding := none
  embeddingModel := none
  tsConfig := "english"
  trust := .medium
  piiFlags := []
  reviewStatus := .approved
  reviewReason := none
  reviewedAt := none
  reviewedBy := none
  confidence := none
  contentHash := none
  metadata := []
  expiresAt := none
  createdAt := ctx.now
  updatedAt := ctx.now
  deletedAt := none

variable (tools : Tools) (orgId : Nat)

/-- This is the loop over `derived_from_ids`, which raises at an id that no candidate has. -/
def linkMembers (now : Instant) (candidates : List Memory) (summaryId : Nat) (db : Database) :
    List Nat → Option Database
  | [] => some db
  | mid :: rest => do
      let (_, db) ← MemoryLinkRepo.link now db summaryId mid .derivedFrom onePointZero
      let source ← candidates.find? fun c => c.id == mid
      linkMembers now candidates summaryId
        (MemoryRepo.applyDecay now db source.id (tools.half source.decayScore) none) rest

/-- The summary of one cluster is written into the long tier, with its links. -/
def writeSummary (ctx : CallContext) (candidates : List Memory) (db : Database) (anchor : Memory)
    (result : ConsolidationResult) : Option (Memory × Database) := do
  let (summary, db) ← db.insertMemory (summaryRow orgId ctx anchor result) ctx.idGap
  let db := MemoryRepo.applyDecay ctx.now db summary.id onePointZero (some .long)
  let db ← linkMembers tools ctx.now candidates summary.id db result.derivedFromIds
  return (summary, db)

/-- A summary that was written comes with the cluster it was made of. -/
structure Written where
  summaryId : Nat
  members : List Memory

/-- This is the loop over the groups, whose calls have their contexts by the number of the group. An
exception rolls all of it back. -/
def consolidateGroups (ctx : Nat → CallContext) (candidates : List Memory) :
    Nat → List (Int × List Memory) → Database → Option (List Written × Database)
  | _, [], db => some ([], db)
  | i, (_, members) :: rest, db =>
      match tools.consolidate (members.map clusterMember), members with
      | some result, anchor :: _ => do
          let (summary, db) ← writeSummary tools orgId (ctx i) candidates db anchor result
          let (written, db) ← consolidateGroups ctx candidates (i + 1) rest db
          return (⟨summary.id, members⟩ :: written, db)
      | _, _ => consolidateGroups ctx candidates (i + 1) rest db

/-- This is `_consolidate_org`, without the reasons of an early return: it is `none` when it raises. -/
def consolidateOrg (ctx : Nat → CallContext) (db : Database) : Option (List Written × Database) :=
  let candidates := MemoryRepo.listForConsolidation db orgId
  consolidateGroups tools orgId ctx candidates 0 (groupsOf tools candidates) db

/-- A run that raises leaves the database as it was. -/
def afterRun (ctx : Nat → CallContext) (db : Database) : Database :=
  ((consolidateOrg tools orgId ctx db).map Prod.snd).getD db

end ConsolidationTask
end Kortex

namespace Kortex

/-- This is what `reanalyse_scope` makes of a row. -/
def Memory.reanalysed (now : Instant) (tsConfig : Str) (m : Memory) : Memory :=
  { m with tsConfig := tsConfig, updatedAt := now }

theorem Memory.reanalysed_ident (now : Instant) (tsConfig : Str) (m : Memory) :
    ((m.reanalysed now tsConfig).id, (m.reanalysed now tsConfig).publicId) = (m.id, m.publicId) := rfl

/-- The filter of `reanalyse_scope` asks for the org of the principal, also of a superuser. -/
def MemoryRepo.isReanalysed (p : Principal) (scope : ScopeFilter) (m : Memory) : Bool :=
  m.orgId == p.orgId && m.inScope scope && m.live

/-- This is `reanalyse_scope`. -/
def MemoryRepo.reanalyseScope (p : Principal) (now : Instant) (db : Database) (scope : ScopeFilter)
    (tsConfig : Str) : Database :=
  { db with
    memories := db.memories.update (isReanalysed p scope) (Memory.reanalysed now tsConfig)
      (Memory.reanalysed_ident now tsConfig) }

def Project.withTextSearchConfig (projectId : Nat) (tsConfig : Str) (project : Project) : Project :=
  if project.id = projectId then { project with textSearchConfig := tsConfig } else project

namespace Analyser

/-- This is the answer to a bad request. -/
inductive ApiError where
  | badRequest (detail : Str)
  | notFound (detail : Str)

variable (env : Environment) (supported : Str → Bool)

/-- This is `set_text_search_config` for the memories. The project comes by its id, and the database
knows which configurations are supported. -/
def setTextSearchConfig (p : Principal) (now : Instant) (db : Database) (projectId : Nat)
    (tsConfig : Str) : Except ApiError Database :=
  if supported tsConfig then
    match MemoryService.projectById p db projectId with
    | none => .error (.notFound "project not found")
    | some project =>
        let db := { db with projects := db.projects.map (Project.withTextSearchConfig project.id tsConfig) }
        .ok (MemoryRepo.reanalyseScope p now db ⟨.project, project.id⟩ tsConfig)
  else .error (.badRequest ("unknown text search configuration " ++ env.repr (.str tsConfig)))

/-- Instances of the service live beside each other, each with its own caches. -/
structure State where
  db : Database
  services : Nat → ServiceCache

inductive Event where
  | call (service : Nat) (r : MemoryService.Request)
  | setTextSearchConfig (p : Principal) (now : Instant) (projectId : Nat) (tsConfig : Str)
  | consolidate (tools : ConsolidationTask.Tools) (orgId : Nat) (ctx : Nat → CallContext)

/-- A request that fails changes nothing. -/
def step (s : State) : Event → State
  | .call service r =>
      let session := MemoryService.step env ⟨s.db, s.services service⟩ r
      ⟨session.db, Function.update s.services service session.service⟩
  | .setTextSearchConfig p now projectId tsConfig =>
      match setTextSearchConfig env supported p now s.db projectId tsConfig with
      | .ok db => { s with db := db }
      | .error _ => s
  | .consolidate tools orgId ctx => { s with db := ConsolidationTask.afterRun tools orgId ctx s.db }

end Analyser
end Kortex
