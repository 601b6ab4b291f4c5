import Kortex.Model.Retrieval

/-
This file models the read paths of `MemoryService` and `RetrievalService`.
-/

namespace Kortex

namespace MemoryService

variable (p : Principal) (db : Database)

/-- This is `get`. -/
def get (publicId : Uuid) : Except ServiceError (Option Memory) := do
  requireScope p "read:memory"
  match MemoryRepo.getByPublicId p db publicId with
  | none => return none
  | some m =>
      if AccessControl.canRead p ⟨⟨m.scopeType, m.scopeId⟩, m.sensitivity⟩ then return some m
      else return none

/-- These are the arguments of `list_`. -/
structure ListRequest where
  scope : Option ScopeFilter := none
  tier : Option MemoryTier := none
  kind : Option MemoryKind := none
  limit : Nat := 50
  offset : Nat := 0

/-- This is `list_`, which caps the sensitivity for all but superusers. -/
def list_ (r : ListRequest) : Except ServiceError (List Memory) := do
  requireScope p "read:memory"
  return MemoryRepo.list_ p db r.scope r.tier r.kind r.limit r.offset
    (if p.isSuperuser then none else some p.maxSensitivity)

/-- This is `list_links`: the memories at the other ends, each with the type of its link. -/
def listLinks (publicId : Uuid) : Except ServiceError (List (Memory × MemoryLinkType)) := do
  requireScope p "read:memory"
  match MemoryRepo.getByPublicId p db publicId with
  | none => return []
  | some m => return (MemoryLinkRepo.neighbors db m.id []).filterMap fun link =>
      (MemoryRepo.getById p db (link.other m.id)).map fun other => (other, link.linkType)

end MemoryService

/-- This is what `record_access` makes of a row. -/
def Memory.accessed (now : Instant) (m : Memory) : Memory :=
  { m with accessCount := m.accessCount + 1, lastAccessedAt := some now, updatedAt := now }

theorem Memory.accessed_ident (now : Instant) (m : Memory) :
    ((m.accessed now).id, (m.accessed now).publicId) = (m.id, m.publicId) := rfl

/-- This is `record_access`. -/
def MemoryRepo.recordAccess (now : Instant) (db : Database) (ids : List Nat) : Database :=
  { db with memories := db.memories.update (fun m => ids.contains m.id) (Memory.accessed now)
              (Memory.accessed_ident now) }

namespace RetrievalService

structure SearchRequest where
  query : Str
  scopes : List ScopeFilter := []
  limit : Int := 20
  embedQuery : Bool := true

structure SearchResult where
  hits : List HybridSearchHit
  usedVector : Bool

variable (env : Environment) (engine : SearchEngine) (isoformat : Instant → Str)
  (p : Principal) (db : Database)

/-- This is the query vector, which an embedder that fails leaves out. -/
def queryVector (r : SearchRequest) : Option (List PyFloat) :=
  if r.embedQuery then env.embed r.query else none

/-- This is the hybrid search of a request. -/
def found (r : SearchRequest) : List HybridSearchHit :=
  Retrieval.hybridSearch engine env.settings p db
    { query := r.query, queryVector := queryVector env r, scopes := r.scopes
      maxSensitivity := p.maxSensitivity, limit := r.limit }

/-- This is `search`, which counts an access to each hit. -/
def search (now : Instant) (r : SearchRequest) : SearchResult × Database :=
  let hits := found env engine p db r
  let hits := if env.settings.conflictDetection then
      let (noted, demoted) := Conflicts.annotateConflicts isoformat p db hits
      Conflicts.demoteSuperseded noted demoted HybridSearchHit.memoryId
    else hits
  ({ hits := hits, usedVector := (queryVector env r).isSome },
    MemoryRepo.recordAccess now db (hits.map HybridSearchHit.memoryId))

end RetrievalService
end Kortex
