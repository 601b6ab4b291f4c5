import Kortex.Model.Idempotency
import Kortex.Model.MemoryService

/-
This file models `ApiKeyService`, `UserService` and the principals that `AuthService` builds.
-/

namespace Kortex

/-- This is a row of the table `api_keys`. -/
structure ApiKey where
  id : Nat
  publicId : Uuid
  orgId : Nat
  keyPrefix : Str
  keyHash : Str
  name : Str
  scopes : List Str
  scopeType : Option ScopeType
  scopeId : Option Nat
  createdBy : Option Nat
  expiresAt : Option Instant
  lastUsedAt : Option Instant
  revokedAt : Option Instant

/-- These are the columns of the table `users` that the code reads. -/
structure User where
  id : Nat
  publicId : Uuid
  email : Str
  displayName : Str
  isSuperuser : Bool
  deletedAt : Option Instant

/-- This is a row of the table `memberships`. -/
structure Membership where
  id : Nat
  userId : Nat
  scope : ScopeRef
  role : Role

/-- The ids increase, and the second part of the identity is unique. -/
def keyed {Ident : Type} (a b : Nat × Ident) : Prop := a.1 < b.1 ∧ a.2 ≠ b.2

instance {Ident : Type} [DecidableEq Ident] : DecidableRel (@keyed Ident) :=
  fun a b => inferInstanceAs (Decidable (a.1 < b.1 ∧ a.2 ≠ b.2))

abbrev ApiKeyTable := Table (fun k : ApiKey => (k.id, k.publicId)) keyed

abbrev UserTable := Table (fun u : User => (u.id, u.publicId)) keyed

/-- A user has one role on a scope at most. -/
abbrev MembershipTable := Table (fun m : Membership => (m.id, m.userId, m.scope)) keyed

structure AccountStore where
  apiKeys : ApiKeyTable := Table.empty
  users : UserTable := Table.empty
  memberships : MembershipTable := Table.empty
  audit : AuditTable JsonDict := Audit.empty

/-- The sequence gives a new row this id. -/
def nextId {Row : Type} (idOf : Row → Nat) (rows : List Row) (gap : Nat) : Nat :=
  (rows.getLast?.map idOf).getD 0 + 1 + gap

/-- These are the functions of Argon2. -/
structure Hasher where
  hash : Str → Str
  verify : Str → Str → Bool

/-- This is what `secrets` gives for a new key. -/
structure ApiKeyMaterial where
  start : Str
  secret : Str

def ApiKeyMaterial.plaintext (material : ApiKeyMaterial) : Str :=
  "kx_" ++ material.start ++ "_" ++ material.secret

/-- This is the audit entry of a call; the database refuses an address that is none. -/
def recordAudit (env : Environment) (p : Principal) (ctx : CallContext) (audit : AuditTable JsonDict)
    (action targetType : Str) (targetId : Nat) (metadata : JsonDict) :
    Except ServiceError (AuditTable JsonDict) :=
  let stored (fields : AuditFields JsonDict) : Option (AuditFields JsonDict) :=
    match fields.ip with
    | none => some fields
    | some ip => (env.inet ip).map fun canonical => { fields with ip := some canonical }
  match Audit.append (Audit.digestStored env.sha256) stored audit
      { actorKind := p.actorKind, actorId := some p.actorId, action := action
        targetType := some targetType, targetId := some targetId, metadata := some metadata
        principalOrg := some p.orgId, originIp := ctx.originIp, originAgent := ctx.originAgent
        now := ctx.now, idGap := ctx.auditGap } with
  | .ok audit => .ok audit
  | .error (.valueError message) => .error (.valueError message)
  | .error .databaseError => .error .databaseError

namespace ApiKeyService

/-- These are the arguments of `mint`. -/
structure MintRequest where
  name : Str
  scopes : List Str
  scopeType : Option ScopeType := none
  scopeId : Option Nat := none
  expiresInDays : Option Int := none

structure MintedApiKey where
  plaintext : Str
  apiKey : ApiKey

/-- This is the time some days from now, which must lie between the years 1 and 9999. -/
def inDays (now : Instant) (days : Int) : Except ServiceError Instant :=
  let t := now + days * 86400000000
  if -62135596800000000 ≤ t ∧ t ≤ 253402300799999999 then .ok t
  else .error (.valueError "date value out of range")

/-- This is the check that a key mints no key with broader scopes. -/
def requireNarrower (p : Principal) (scopes : List Str) : Except ServiceError Unit :=
  if p.actorKind = .apiKey ∧ p.keyScopes ≠ [] ∧ scopes.all p.keyScopes.contains = false then
    .error (.accessDenied "cannot mint an api key with broader scopes than the caller")
  else .ok ()

/-- The columns of the table `api_keys` accept the values of the row. -/
def storable (key : ApiKey) : Bool :=
  Audit.acceptsColumn 8 (some key.keyPrefix) && Audit.acceptsColumn 255 (some key.keyHash) &&
    Audit.acceptsColumn 200 (some key.name) &&
    key.scopes.all fun scope => Audit.acceptsColumn 64 (some scope)

/-- This is `ApiKeyRepository.create`. -/
def create (store : AccountStore) (key : ApiKey) (gap : Nat) : Option (ApiKey × AccountStore) :=
  let row := { key with id := nextId ApiKey.id store.apiKeys.rows gap }
  if storable row then
    (store.apiKeys.insert? row).map fun keys => (row, { store with apiKeys := keys })
  else none

/-- This is `expires_at` of a new key; zero days are no limit. -/
def expiry (now : Instant) (expiresInDays : Option Int) : Except ServiceError (Option Instant) :=
  match expiresInDays with
  | none => .ok none
  | some days => if days = 0 then .ok none else (inDays now days).map some

def newKey (p : Principal) (ctx : CallContext) (hasher : Hasher) (material : ApiKeyMaterial)
    (r : MintRequest) (expiresAt : Option Instant) : ApiKey where
  id := 0
  publicId := ctx.newPublicId
  orgId := p.orgId
  keyPrefix := material.start
  keyHash := hasher.hash material.secret
  name := r.name
  scopes := r.scopes
  scopeType := r.scopeType
  scopeId := r.scopeId
  createdBy := p.userId
  expiresAt := expiresAt
  lastUsedAt := none
  revokedAt := none

/-- This is `mint`. -/
def mint (env : Environment) (hasher : Hasher) (p : Principal) (ctx : CallContext)
    (material : ApiKeyMaterial) (store : AccountStore) (r : MintRequest) :
    Except ServiceError (MintedApiKey × AccountStore) := do
  requireNarrower p r.scopes
  let expiresAt ← expiry ctx.now r.expiresInDays
  let (key, store) ← MemoryService.flush
    (create store (newKey p ctx hasher material r expiresAt) ctx.idGap)
  let audit ← recordAudit env p ctx store.audit "api_key.created" "api_key" key.id
    [("name", .str r.name), ("prefix", .str material.start),
      ("scopes", .arr ((r.scopes.insertionSort fun a b => Str.le a b = true).map fun s => .str s))]
  return ({ plaintext := material.plaintext, apiKey := key }, { store with audit := audit })

end ApiKeyService

/-- A credential is refused, or the database finds several rows where one is expected. -/
inductive AuthError where
  | refused (message : Str)
  | multipleResults

namespace AuthService

/-- This is the table `_KEY_ROLE_TO_SENSITIVITY`. -/
def keyRoleToSensitivity : Role → Sensitivity
  | .viewer | .member => .confidential
  | .admin | .owner => .secret

/-- This is `_max_sensitivity`. -/
def maxSensitivity (roles : List Role) : Sensitivity :=
  roles.foldl (fun best role =>
    if best.rank < (keyRoleToSensitivity role).rank then keyRoleToSensitivity role else best) .public

/-- This is the scope that a key is bound to; the id 0 is none. -/
def boundScope (scopeType : Option ScopeType) (scopeId : Option Nat) : Option ScopeRef :=
  match scopeType, scopeId with
  | some type, some (n + 1) => some ⟨type, n + 1⟩
  | _, _ => none

/-- This is the principal that a key stands for. -/
def principalOfKey (key : ApiKey) : Principal :=
  let roles : Dict ScopeRef Role :=
    (boundScope key.scopeType key.scopeId).toList.map fun scope => (scope, .member)
  { actorId := key.id
    actorKind := .apiKey
    orgId := key.orgId
    scope := boundScope key.scopeType key.scopeId
    roles := roles
    keyScopes := key.scopes
    maxSensitivity := maxSensitivity (roles.map Prod.snd) }

/-- This is `get_active_by_prefix`. -/
def getActiveByPrefix (now : Instant) (store : AccountStore) (start : Str) :
    Except AuthError (Option ApiKey) :=
  match store.apiKeys.rows.filter (fun key => key.keyPrefix == start && key.revokedAt.isNone &&
      key.expiresAt.all fun expiry => decide (now < expiry)) with
  | [] => .ok none
  | [key] => .ok (some key)
  | _ => .error .multipleResults

def touchUsed (now : Instant) (store : AccountStore) (key : ApiKey) : AccountStore :=
  { store with apiKeys := store.apiKeys.update (fun k => k.id == key.id)
                 (fun k => { k with lastUsedAt := some now }) fun _ => rfl }

/-- This is `principal_from_api_key`. -/
def principalFromApiKey (env : Environment) (hasher : Hasher) (now : Instant) (store : AccountStore)
    (plaintext : Str) : Except AuthError (Principal × AccountStore) := do
  match parseApiKey env.settings plaintext with
  | none => throw (.refused "malformed api key")
  | some (start, secret) =>
      match ← getActiveByPrefix now store start with
      | none => throw (.refused "invalid api key")
      | some key =>
          if hasher.verify key.keyHash secret then
            return (principalOfKey key, touchUsed now store key)
          else throw (.refused "invalid api key")

/-- This is `_superuser_principal`. -/
def superuserPrincipal : Principal where
  actorId := 0
  actorKind := .system
  orgId := 0
  isSuperuser := true

/-- This is `get_by_id` of the users. -/
def userById (store : AccountStore) (userId : Nat) : Option User :=
  store.users.rows.find? fun u => u.id == userId && u.deletedAt.isNone

/-- These are the roles of a user on the scopes, in the order of the memberships. -/
def rolesOf (store : AccountStore) (userId : Nat) : Dict ScopeRef Role :=
  (store.memberships.rows.filter fun m => m.userId == userId).foldl
    (fun roles m => Dict.set roles m.scope m.role) []

/-- This is the principal that `principal_from_jwt` builds for the subject of the token. -/
def principalOfUser (store : AccountStore) (userId : Nat) : Except AuthError Principal :=
  match userById store userId with
  | none => .error (.refused "user not found")
  | some user =>
      let roles := rolesOf store userId
      .ok { actorId := user.id
            actorKind := .user
            orgId := ((roles.map Prod.fst).find? fun scope => scope.type == .org).elim 0 ScopeRef.id
            roles := roles
            maxSensitivity := maxSensitivity (roles.map Prod.snd)
            isSuperuser := user.isSuperuser }

end AuthService

namespace ApiKeyService

/-- A chain of keys is at the principal of its last key. -/
structure Chain where
  store : AccountStore
  principal : Principal

/-- The holder of the last key mints a key, and loads it at a later time. -/
structure MintCall where
  request : MintRequest
  context : CallContext
  material : ApiKeyMaterial
  loadedAt : Instant

/-- The chain moves on to a key that is minted and then loaded from its plaintext. -/
def mintStep (env : Environment) (hasher : Hasher) (c : Chain) (call : MintCall) : Chain :=
  match mint env hasher c.principal call.context call.material c.store call.request with
  | .error _ => c
  | .ok (minted, store) =>
      match AuthService.principalFromApiKey env hasher call.loadedAt store minted.plaintext with
      | .error _ => ⟨store, c.principal⟩
      | .ok (p, loaded) =>
          if p.actorId = minted.apiKey.id then ⟨loaded, p⟩ else ⟨store, c.principal⟩

end ApiKeyService

namespace UserService

variable (env : Environment) (p : Principal) (ctx : CallContext)

/-- This is `get_by_email`; the column compares emails without regard to case. -/
def getByEmail (fold : Str → Str) (store : AccountStore) (email : Str) : Option User :=
  store.users.rows.find? fun u => fold u.email == fold email && u.deletedAt.isNone

/-- This is `create_with_password` without a display name; an email is taken once. -/
def createWithPassword (fold : Str → Str) (store : AccountStore) (email : Str) :
    Except ServiceError (User × AccountStore) := do
  if AccessControl.isAdminAnywhere p then
    let row : User :=
      { id := nextId User.id store.users.rows ctx.idGap, publicId := ctx.newPublicId, email := email
        displayName := [], isSuperuser := false, deletedAt := none }
    if store.users.rows.any (fun u => fold u.email == fold email) || !PyValue.accepts email then
      throw .databaseError
    else
      let users ← MemoryService.flush (store.users.insert? row)
      return (row, { store with users := users })
  else throw (.accessDenied "not authorized to create users")

/-- This is `MembershipRepository.get`. -/
def membershipOf (store : AccountStore) (userId : Nat) (scope : ScopeRef) : Option Membership :=
  store.memberships.rows.find? fun m => m.userId == userId && m.scope == scope

/-- This is `MembershipRepository.grant`; a membership needs its user. -/
def upsert (store : AccountStore) (userId : Nat) (scope : ScopeRef) (role : Role) :
    Option AccountStore :=
  match membershipOf store userId scope with
  | some existing => some { store with
      memberships := store.memberships.update (fun m => m.id == existing.id)
        (fun m => { m with role := role }) fun _ => rfl }
  | none =>
      if store.users.rows.any fun u => u.id == userId then
        (store.memberships.insert?
          ⟨nextId Membership.id store.memberships.rows ctx.idGap, userId, scope, role⟩).map
            fun memberships => { store with memberships := memberships }
      else none

def auditMetadata (scope : ScopeRef) : Option Role → JsonDict
  | none => [("scope_type", .str scope.type.value), ("scope_id", .int scope.id)]
  | some role => [("scope_type", .str scope.type.value), ("scope_id", .int scope.id),
      ("role", .str role.value)]

/-- This is the check of `grant`. -/
def requireGrant (scope : ScopeRef) (role : Role) : Except ServiceError Unit :=
  let allowed := if role = .owner then AccessControl.canOwn p scope else AccessControl.canAdmin p scope
  if allowed then .ok ()
  else .error (.accessDenied ("not authorized to grant " ++ role.value ++ " on " ++ scope.str))

/-- This is `grant`. -/
def grant (store : AccountStore) (userId : Nat) (scope : ScopeRef) (role : Role) :
    Except ServiceError AccountStore := do
  requireGrant p scope role
  let store ← MemoryService.flush (upsert ctx store userId scope role)
  let audit ← recordAudit env p ctx store.audit "member.granted" "user" userId
    (auditMetadata scope (some role))
  return { store with audit := audit }

/-- This is the check of `revoke`. -/
def requireRevoke (scope : ScopeRef) : Except ServiceError Unit :=
  if AccessControl.canAdmin p scope then .ok ()
  else .error (.accessDenied ("not authorized to revoke on " ++ scope.str))

/-- This is `revoke`. -/
def revoke (store : AccountStore) (userId : Nat) (scope : ScopeRef) :
    Except ServiceError AccountStore := do
  requireRevoke p scope
  match membershipOf store userId scope with
  | none => return store
  | some m =>
      let store := { store with memberships := store.memberships.delete fun row => row.id == m.id }
      let audit ← recordAudit env p ctx store.audit "member.revoked" "user" userId
        (auditMetadata scope none)
      return { store with audit := audit }

/-- This is the user of an invitation, who is new if the email is. -/
def invitee (fold : Str → Str) (store : AccountStore) (email : Str) :
    Except ServiceError (User × AccountStore) :=
  match getByEmail fold store email with
  | some user => .ok (user, store)
  | none => createWithPassword p ctx fold store email

/-- This is `invite_member`. -/
def inviteMember (fold : Str → Str) (store : AccountStore) (email : Str) (role : Role) :
    Except ServiceError AccountStore := do
  let (user, store) ← invitee p ctx fold store email
  grant env p ctx store user.id ⟨.org, p.orgId⟩ role

/-- A call comes from a user, from the holder of a key or from the system itself. -/
inductive Caller where
  | user (userId : Nat)
  | apiKey (key : ApiKey)
  | system

/-- The roles of a user are derived from the memberships before each call. -/
def principalOf (store : AccountStore) : Caller → Except AuthError Principal
  | .user userId => AuthService.principalOfUser store userId
  | .apiKey key => .ok (AuthService.principalOfKey key)
  | .system => .ok AuthService.superuserPrincipal

/-- These are the calls that change memberships. -/
inductive Change where
  | grant (userId : Nat) (scope : ScopeRef) (role : Role)
  | revoke (userId : Nat) (scope : ScopeRef)
  | invite (email : Str) (role : Role)

structure Call where
  caller : Caller
  context : CallContext
  change : Change

def perform (fold : Str → Str) (store : AccountStore) : Change → Except ServiceError AccountStore
  | .grant userId scope role => grant env p ctx store userId scope role
  | .revoke userId scope => revoke env p ctx store userId scope
  | .invite email role => inviteMember env p ctx fold store email role

/-- A call that fails leaves the store as it is. -/
def step (fold : Str → Str) (store : AccountStore) (call : Call) : AccountStore :=
  match principalOf store call.caller with
  | .error _ => store
  | .ok p => match perform env p call.context fold store call.change with
      | .ok store => store
      | .error _ => store

end UserService
end Kortex
