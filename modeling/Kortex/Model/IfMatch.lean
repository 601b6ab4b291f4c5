import Kortex.Model.MemoryService

/-
This file models PATCH requests with `If-Match` on one memory: `EtagMiddleware` and `update_memory`.
-/

namespace Kortex

/-- This is `str` of a timestamp. -/
def Instant.str (t : Instant) : Str := t.isoformat.map fun c => if c = 'T' then ' ' else c

namespace MemoryService

/-- This is the part of `update` before `update_fields`. -/
def editable (p : Principal) (db : Database) (publicId : Uuid) (patch : MemoryPatch) :
    Except ServiceError (Option Memory) := do
  requireScope p "write:memory"
  match MemoryRepo.getByPublicId p db publicId with
  | none => return none
  | some m =>
      requireWrite p m
      requireSensitivity p m patch.sensitivity
      return some m

end MemoryService

namespace IfMatch

def memoriesPath : Str := "/v1/memories/"

def isHexOrDash (c : Char) : Bool :=
  c.isDigit || ('a' ≤ c && c ≤ 'f') || ('A' ≤ c && c ≤ 'F') || c == '-'

/-- This is the group of `_MEMORY_PATCH_RE`, whose `$` also stands before a last line feed. -/
def memoryPatchId (path : Str) : Option Str :=
  let rest := path.drop memoriesPath.length
  let group := rest.take 36
  if memoriesPath <+: path ∧ group.length = 36 ∧ group.all isHexOrDash ∧
      (rest.drop 36 = [] ∨ rest.drop 36 = ['\n']) then some group else none

/-- The router reads the public id from the path, in any notation that `uuid.UUID` has. -/
structure PatchRequest (parse : Str → Option Uuid) (publicId : Uuid) where
  id : Str
  routed : parse id = some publicId
  ifMatch : Str
  principal : Principal
  patch : MemoryPatch

section

variable (sha1 : Str → Str) (cast : Str → Option Uuid)

/-- This is `_row_etag` of a row with this `updated_at`. -/
def rowEtag (updatedAt : Instant) : Str := "W/\"" ++ (sha1 updatedAt.str).take 16 ++ "\""

/-- This is `_current_etag_for_memory` before `_row_etag`. An exception counts as no row, also that of
the cast to a UUID. -/
def currentUpdatedAt (db : Database) (fails : Bool) (id : Str) : Option Instant :=
  if fails then none
  else (cast id).bind fun publicId =>
    (db.memories.rows.find? fun m => m.publicId == publicId && m.live).map Memory.updatedAt

/-- This is what the middleware makes of a request. -/
inductive Dispatch where
  /-- The handler is called; the version is there when the header was compared with its ETag. -/
  | callNext (checked : Option Instant)
  | preconditionFailed

/-- This is `dispatch` for a PATCH. -/
def dispatch (db : Database) (fails : Bool) (path ifMatch : Str) : Dispatch :=
  match memoryPatchId path with
  | none => .callNext none
  | some id =>
      if ifMatch = [] then .callNext none
      else match currentUpdatedAt cast db fails id with
        | none => .callNext none
        | some updatedAt =>
            if Str.strip ifMatch ≠ rowEtag sha1 updatedAt then .preconditionFailed
            else .callNext (some updatedAt)

end

/-- These are the steps that a request has made. -/
inductive Phase where
  | arrived
  | dispatched (checked : Option Instant)
  | loaded (checked : Option Instant) (now : Instant) (m : Memory)
  /-- The UPDATE has found the row and locks it; its transaction has its own database. -/
  | updated (checked : Option Instant) (found : Memory) (db : Database)
  | succeeded (found : Memory)
  | failed

structure State where
  db : Database
  holder : Option Nat := none
  phase : Nat → Phase := fun _ => .arrived

/-- A lookup of the middleware may fail, and so may a request at any time. -/
inductive Event where
  | lookUp (i : Nat) (fails : Bool)
  | load (i : Nat) (now : Instant)
  | update (i : Nat)
  | commit (i : Nat)
  | abort (i : Nat)

def State.setPhase (s : State) (i : Nat) (phase : Phase) : State :=
  { s with phase := Function.update s.phase i phase }

variable {parse : Str → Option Uuid} {publicId : Uuid}
variable (sha1 : Str → Str) (cast : Str → Option Uuid)
variable (requests : Nat → PatchRequest parse publicId)

/-- The handler looks the memory up in its own transaction. -/
def load (s : State) (i : Nat) (checked : Option Instant) (now : Instant) : State :=
  match MemoryService.editable (requests i).principal s.db publicId (requests i).patch with
  | .ok (some m) => s.setPhase i (.loaded checked now m)
  | _ => s.setPhase i .failed

/-- The UPDATE waits for the lock of its row, and writes the given columns into the row that is there. -/
def update (s : State) (i : Nat) (checked : Option Instant) (now : Instant) (m : Memory) : State :=
  if s.holder.isSome then s
  else match s.db.memories.rows.find? fun row => row.id == m.id with
    | none => s.setPhase i .failed
    | some found =>
        match MemoryRepo.updateFields now s.db found (requests i).patch with
        | none => s.setPhase i .failed
        | some (_, db) => { s.setPhase i (.updated checked found db) with holder := some i }

/-- An event happens in the phase that it belongs to. -/
def step (s : State) : Event → State
  | .lookUp i fails =>
      match s.phase i with
      | .arrived =>
          match dispatch sha1 cast s.db fails (memoriesPath ++ (requests i).id) (requests i).ifMatch with
          | .callNext checked => s.setPhase i (.dispatched checked)
          | .preconditionFailed => s.setPhase i .failed
      | _ => s
  | .load i now =>
      match s.phase i with
      | .dispatched checked => load requests s i checked now
      | _ => s
  | .update i =>
      match s.phase i with
      | .loaded checked now m => update requests s i checked now m
      | _ => s
  | .commit i =>
      match s.phase i with
      | .updated _ found db =>
          { db := db, holder := none, phase := Function.update s.phase i (.succeeded found) }
      | _ => s
  | .abort i =>
      match s.phase i with
      | .succeeded _ => s
      | .failed => s
      | .updated _ _ _ => { s.setPhase i .failed with holder := none }
      | _ => s.setPhase i .failed

end IfMatch
end Kortex
