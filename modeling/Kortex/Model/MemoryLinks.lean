import Kortex.Model.MemoryService

/-
This file models the links of `MemoryService` and its bulk actions.
-/

namespace Kortex

namespace MemoryLinkRepo

/-- The key of a link is its two ends and its type. -/
def hasKey (fromMemoryId toMemoryId : Nat) (linkType : MemoryLinkType) (link : MemoryLink) : Bool :=
  link.fromMemoryId == fromMemoryId && link.toMemoryId == toMemoryId && link.linkType == linkType

/-- This is `link`; the key of a link is taken once. -/
def link (now : Instant) (db : Database) (fromMemoryId toMemoryId : Nat) (linkType : MemoryLinkType)
    (weight : PyFloat) : Option (MemoryLink × Database) :=
  let row : MemoryLink := ⟨fromMemoryId, toMemoryId, linkType, weight, now⟩
  if db.links.any (hasKey fromMemoryId toMemoryId linkType) then none
  else some (row, { db with links := db.links ++ [row] })

/-- This is `unlink`. -/
def unlink (db : Database) (fromMemoryId toMemoryId : Nat) (linkType : MemoryLinkType) :
    Bool × Database :=
  if db.links.any (hasKey fromMemoryId toMemoryId linkType) then
    (true, { db with
      links := db.links.filter fun link => !hasKey fromMemoryId toMemoryId linkType link })
  else (false, db)

end MemoryLinkRepo

namespace MemoryService

variable (env : Environment) (p : Principal) (ctx : CallContext)

/-- This is `link`. -/
def link (s : Session) (fromPublicId toPublicId : Uuid) (linkType : MemoryLinkType)
    (weight : PyFloat) : Except ServiceError (Option MemoryLink × Session) :=
  match MemoryRepo.getByPublicId p s.db fromPublicId, MemoryRepo.getByPublicId p s.db toPublicId with
  | some a, some b => do
      let (row, db) ← flush (MemoryLinkRepo.link ctx.now s.db a.id b.id linkType weight)
      return (some row, { s with db := db })
  | _, _ => return (none, s)

/-- This is `unlink`. -/
def unlink (s : Session) (fromPublicId toPublicId : Uuid) (linkType : MemoryLinkType) :
    Except ServiceError (Bool × Session) :=
  match MemoryRepo.getByPublicId p s.db fromPublicId, MemoryRepo.getByPublicId p s.db toPublicId with
  | some a, some b =>
      let (done, db) := MemoryLinkRepo.unlink s.db a.id b.id linkType
      return (done, { s with db := db })
  | _, _ => return (false, s)

/-- This is the part of `bulk_apply` that applies the action to one memory. -/
def applyOne (action : Str) (s : Session) (publicId : Uuid) : Except ServiceError (Bool × Session) :=
  if action = "pin".toList then
    (setPinned p ctx s publicId true).map fun result => (result.1.isSome, result.2)
  else if action = "unpin".toList then
    (setPinned p ctx s publicId false).map fun result => (result.1.isSome, result.2)
  else if action = "delete".toList then delete env p ctx s publicId
  else .error (.valueError ("unknown bulk action " ++ env.repr (.str action)))

/-- This is `bulk_apply`, which counts the memories that it changed. -/
def bulkApply (action : Str) (s : Session) : List Uuid → Except ServiceError (Nat × Session)
  | [] => return (0, s)
  | publicId :: rest => do
      let (changed, s) ← applyOne env p ctx action s publicId
      let (count, s) ← bulkApply action s rest
      return (count + changed.toNat, s)

/-- These are all calls that change memories or their links. -/
inductive Edit where
  | call (call : Call)
  | bulkApply (action : Str) (publicIds : List Uuid)
  | link (fromPublicId toPublicId : Uuid) (linkType : MemoryLinkType) (weight : PyFloat)
  | unlink (fromPublicId toPublicId : Uuid) (linkType : MemoryLinkType)

/-- An edit comes with its context, on a new instance of the service or on the last one. -/
structure EditRequest where
  context : CallContext
  newService : Bool
  edit : Edit

/-- The session after an edit; a failed one rolls it back. -/
def editStep (s : Session) (r : EditRequest) : Session :=
  let fresh := Session.renew s r.newService
  match r.edit with
  | .call call => afterCall fresh (perform env p r.context fresh call)
  | .bulkApply action publicIds => afterCall fresh (bulkApply env p r.context action fresh publicIds)
  | .link a b linkType weight => afterCall fresh (link p r.context fresh a b linkType weight)
  | .unlink a b linkType => afterCall fresh (unlink p fresh a b linkType)

end MemoryService
end Kortex
