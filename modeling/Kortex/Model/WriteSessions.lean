import Kortex.Library.ReadCommitted
import Kortex.Model.MemoryService

/-
This file models instances of `MemoryService` whose sessions run at the same time, each of them one
read-committed transaction after the other and one statement at a time.
-/

namespace Kortex

abbrev MemoryChange := RowChange fun m : Memory => (m.id, m.publicId)

abbrev MemoryVersions :=
  Versions (fun m : Memory => (m.id, m.publicId)) fun a b => a.1 < b.1 ∧ a.2 ≠ b.2

/-- This is the UPDATE of `record_duplicate`, which writes what it has made of the loaded row. -/
def Memory.foldInto (existing : Memory) (now : Instant) (metadata : Option JsonDict) :
    MemoryChange where
  target := (existing.id, existing.publicId)
  change m :=
    let row := existing.duplicated now metadata
    { m with accessCount := row.accessCount, lastAccessedAt := row.lastAccessedAt,
             updatedAt := row.updatedAt,
             metadata := if (metadata.getD []).isEmpty then m.metadata else row.metadata }
  keeps _ := rfl

/-- This is the UPDATE of `soft_delete`. -/
def Memory.softDeletion (m : Memory) (now : Instant) : MemoryChange where
  target := (m.id, m.publicId)
  change := Memory.softDeleted now
  keeps := Memory.softDeleted_ident now

namespace WriteSessions

/-- These are the arguments of a call of `write` and the configuration that it has read. -/
structure PendingWrite where
  context : CallContext
  payload : CreateMemoryInput
  embed : Bool
  config : ReviewMode × Str

/-- An instance waits for its next call, or stands between two statements of `write` or `delete`. -/
inductive Phase where
  | ready
  | folding (existing : Memory) (w : PendingWrite)
  | missed (w : PendingWrite)
  | counted (w : PendingWrite)
  | deleting (m : Memory) (context : CallContext)

structure Instance where
  principal : Principal
  service : ServiceCache := {}
  phase : Phase := .ready

/-- The other tables stay as they are. -/
structure State where
  base : Database
  versions : MemoryVersions
  instances : Nat → Option Instance

inductive Event where
  | begin (id : Nat) (principal : Principal)
  | lookUp (id : Nat) (context : CallContext) (payload : CreateMemoryInput) (embed force : Bool)
  | fold (id : Nat)
  | enforceQuota (id : Nat)
  | insert (id : Nat)
  | delete (id : Nat) (context : CallContext) (publicId : Uuid)
  | softDelete (id : Nat)
  | commit (id : Nat)
  | rollback (id : Nat)

namespace State

/-- This is the database as the statements of an instance see it. -/
def seen (s : State) (id : Nat) : Database := { s.base with memories := s.versions.view id }

def committed (s : State) : Database := { s.base with memories := s.versions.committed }

def setInstance (s : State) (id : Nat) (i : Instance) : State :=
  { s with instances := Function.update s.instances id (some i) }

/-- An exception, or the end of the session, rolls back what is not committed. -/
def rollback (s : State) (id : Nat) : State :=
  { s with
    versions := s.versions.rollback id
    instances := Function.update s.instances id none }

/-- The change waits for the lock of its row. -/
def change (s : State) (id : Nat) (i : Instance) (c : MemoryChange) : State :=
  if s.versions.free id c.target then
    { s with versions := s.versions.change id c }.setInstance id { i with phase := .ready }
  else s

end State

open MemoryService

variable (env : Environment)

/-- These are the checks of `write` and its lookups, up to `find_by_content_hash`. -/
def lookUp (s : State) (id : Nat) (i : Instance) (context : CallContext)
    (payload : CreateMemoryInput) (embed force : Bool) : State :=
  match requireScope i.principal "write:memory", requireCreate i.principal payload with
  | .ok _, .ok _ =>
      let (config, service) := projectConfig i.principal (s.seen id) i.service payload.scope
      let w : PendingWrite := ⟨context, payload, embed, config⟩
      match duplicateOf env i.principal (s.seen id) payload.scope (screen env payload) force with
      | some existing => s.setInstance id { i with service := service, phase := .folding existing w }
      | none => s.setInstance id { i with service := service, phase := .missed w }
  | _, _ => s.rollback id

/-- This is `record_duplicate`. -/
def fold (s : State) (id : Nat) (i : Instance) (existing : Memory) (w : PendingWrite) : State :=
  if (existing.duplicated w.context.now w.payload.metadata).storable then
    s.change id i (existing.foldInto w.context.now w.payload.metadata)
  else s.rollback id

/-- This is the insert at the end of `write`. -/
def insert (s : State) (id : Nat) (i : Instance) (w : PendingWrite) : State :=
  let screened := screen env w.payload
  match inlineEmbedding env w.payload w.embed with
  | .error _ => s.rollback id
  | .ok embedding =>
      let row := newRow env i.principal w.context w.payload screened
        (reviewDecision env w.payload screened w.config.1) w.config.2 embedding
      match Database.insertMemory { s.base with memories := s.versions.heap } row w.context.idGap with
      | none => s.rollback id
      | some (created, db) =>
          { s with versions := s.versions.insert id db.memories created }.setInstance id
            { i with phase := .ready }

/-- These are the checks of `delete` and its lookup. -/
def delete (s : State) (id : Nat) (i : Instance) (context : CallContext) (publicId : Uuid) : State :=
  match requireScope i.principal "write:memory" with
  | .error _ => s.rollback id
  | .ok _ =>
      match MemoryRepo.getByPublicId i.principal (s.seen id) publicId with
      | none => s
      | some m =>
          match requireWrite i.principal m with
          | .error _ => s.rollback id
          | .ok _ => s.setInstance id { i with phase := .deleting m context }

/-- An event of an instance happens in the phase that it belongs to. -/
def step (s : State) : Event → State
  | .begin id principal =>
      match s.instances id with
      | none => s.setInstance id { principal := principal }
      | some _ => s
  | .lookUp id context payload embed force =>
      match s.instances id with
      | some ⟨principal, service, .ready⟩ =>
          lookUp env s id ⟨principal, service, .ready⟩ context payload embed force
      | _ => s
  | .fold id =>
      match s.instances id with
      | some ⟨principal, service, .folding existing w⟩ =>
          fold s id ⟨principal, service, .folding existing w⟩ existing w
      | _ => s
  | .enforceQuota id =>
      match s.instances id with
      | some ⟨principal, service, .missed w⟩ =>
          match enforceMemoryQuota principal (s.seen id) service with
          | .error _ => s.rollback id
          | .ok service => s.setInstance id ⟨principal, service, .counted w⟩
      | _ => s
  | .insert id =>
      match s.instances id with
      | some ⟨principal, service, .counted w⟩ =>
          insert env s id ⟨principal, service, .counted w⟩ w
      | _ => s
  | .delete id context publicId =>
      match s.instances id with
      | some ⟨principal, service, .ready⟩ =>
          delete s id ⟨principal, service, .ready⟩ context publicId
      | _ => s
  | .softDelete id =>
      match s.instances id with
      | some ⟨principal, service, .deleting m context⟩ =>
          s.change id ⟨principal, service, .deleting m context⟩ (m.softDeletion context.now)
      | _ => s
  | .commit id =>
      match s.instances id with
      | some ⟨_, _, .ready⟩ => { s with versions := s.versions.commit id }
      | _ => s
  | .rollback id => s.rollback id

/-- No session is open, and every memory is committed. -/
def start (db : Database) : State := ⟨db, Versions.ofTable db.memories, fun _ => none⟩

end WriteSessions
end Kortex
