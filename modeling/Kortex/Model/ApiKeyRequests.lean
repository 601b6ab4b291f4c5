import Kortex.Model.Accounts

/-
This file models the requests that mint, revoke and present API keys, with their history.
-/

namespace Kortex.ApiKeyService

/-- This is `_ALPHABET`. -/
def alphabet : Str := "abcdefghijklmnopqrstuvwxyzABCDEFGHIJKLMNOPQRSTUVWXYZ0123456789"

/-- This is what `generate_api_key` draws: two tokens of the configured lengths. -/
structure Generated (settings : Settings) extends ApiKeyMaterial where
  startLength : start.length = settings.apiKeyPrefixLength
  secretLength : secret.length = settings.apiKeySecretLength
  startChars : ∀ c ∈ start, c ∈ alphabet
  secretChars : ∀ c ∈ secret, c ∈ alphabet

/-- This is `get_by_public_id`, whose query is bound to an org. -/
def getByPublicId (p : Principal) (store : AccountStore) (publicId : Uuid) : Option ApiKey :=
  store.apiKeys.rows.find? fun key => (p.isSuperuser || key.orgId == p.orgId) && key.publicId == publicId

def withRevokedAt (now : Instant) (key : ApiKey) : ApiKey := { key with revokedAt := some now }

theorem withRevokedAt_ident (now : Instant) (key : ApiKey) :
    ((withRevokedAt now key).id, (withRevokedAt now key).publicId) = (key.id, key.publicId) := rfl

/-- This is `ApiKeyRepository.revoke`; a key keeps the time of its first revocation. -/
def revokeKey (now : Instant) (p : Principal) (store : AccountStore) (publicId : Uuid) :
    Option (ApiKey × AccountStore) :=
  (getByPublicId p store publicId).map fun key =>
    if key.revokedAt.isNone then
      (withRevokedAt now key, { store with
        apiKeys := store.apiKeys.update (fun row => row.id == key.id) (withRevokedAt now)
          (withRevokedAt_ident now) })
    else (key, store)

/-- This is `revoke`. -/
def revoke (env : Environment) (p : Principal) (ctx : CallContext) (store : AccountStore)
    (publicId : Uuid) : Except ServiceError (Option (ApiKey × AccountStore)) :=
  match revokeKey ctx.now p store publicId with
  | none => .ok none
  | some (key, store) => do
      let audit ← recordAudit env p ctx store.audit "api_key.revoked" "api_key" key.id
        [("name", .str key.name), ("prefix", .str key.keyPrefix)]
      return some (key, { store with audit := audit })

/-- This is what an audit entry says about a key. -/
structure KeyEntry where
  orgId : Nat
  actorKind : ActorKind
  actorId : Option Nat
  action : Str
  targetId : Option Nat
  metadata : JsonDict

def keyActions : List Str := ["api_key.created", "api_key.revoked"]

/-- These are the entries of the audit log about keys. -/
def keyEntries (audit : AuditTable JsonDict) : List KeyEntry :=
  (audit.rows.filter fun row => keyActions.contains row.action).map fun row =>
    ⟨row.orgId, row.actorKind, row.actorId, row.action, row.targetId, row.metadata⟩

/-- This is the work of another endpoint, which leaves the keys and what is written about them alone. -/
structure Work where
  run : Option Principal → AccountStore → AccountStore
  apiKeys : ∀ p store, (run p store).apiKeys = store.apiKeys
  audit : ∀ p store, keyEntries (run p store).audit = keyEntries store.audit

inductive Operation (settings : Settings) where
  | mint (material : Generated settings) (arguments : MintRequest)
  | revoke (publicId : Uuid)
  | other (commits : Bool) (work : Work)

/-- A request is for an endpoint that asks for a principal, with its headers, or for one that is open, as
that of the signup. -/
inductive KeyRequest (settings : Settings) where
  | guarded (headers : Idempotency.Request) (context : CallContext) (operation : Operation settings)
  | anonymous (work : Work)

/-- The response tells what a handler has done, or which error has ended the request. -/
inductive KeyResponse where
  | unauthorized (message : Str)
  | unprocessable
  | minted (key : MintedApiKey)
  | revoked (key : ApiKey)
  | notFound
  | failed (error : ServiceError)
  | multipleResults
  | other

/-- The principal is that of `request.state`. -/
structure Exchange where
  principal : Option Principal
  response : KeyResponse

structure Deployment where
  env : Environment
  hasher : Hasher
  /-- This is the user whom an access token names, or the text of the error. -/
  accessSubject : Instant → Str → Except Str Nat

/-- This is the check of the schema `ApiKeyIn`. -/
def acceptedArguments (arguments : MintRequest) : Bool :=
  decide (1 ≤ arguments.name.length ∧ arguments.name.length ≤ 200) &&
    arguments.expiresInDays.all fun days => decide (1 ≤ days ∧ days ≤ 3650)

variable (d : Deployment)

/-- This is `authenticated_principal`. -/
def authenticatedPrincipal (now : Instant) (store : AccountStore) (headers : Idempotency.Request) :
    Except AuthError (Principal × AccountStore) :=
  match Idempotency.credential headers with
  | .apiKey plaintext => AuthService.principalFromApiKey d.env d.hasher now store plaintext
  | .jwt token =>
      match d.accessSubject now token with
      | .error message => .error (.refused message)
      | .ok userId => (AuthService.principalOfUser store userId).map fun p => (p, store)
  | .anonymous => .error (.refused "missing Authorization or X-API-Key header")

/-- This is a handler behind its principal; what it does not commit is lost. -/
def handle (p : Principal) (loaded store : AccountStore) (context : CallContext) :
    Operation d.env.settings → KeyResponse × AccountStore
  | .mint material arguments =>
      if acceptedArguments arguments then
        match mint d.env d.hasher p context material.toApiKeyMaterial loaded arguments with
        | .ok (minted, store) => (.minted minted, store)
        | .error e => (.failed e, store)
      else (.unprocessable, store)
  | .revoke publicId =>
      match revoke d.env p context loaded publicId with
      | .ok (some (key, store)) => (.revoked key, store)
      | .ok none => (.notFound, store)
      | .error e => (.failed e, store)
  | .other commits work => (.other, if commits then work.run (some p) loaded else store)

def serve (store : AccountStore) : KeyRequest d.env.settings → Exchange × AccountStore
  | .anonymous work => (⟨none, .other⟩, work.run none store)
  | .guarded headers context operation =>
      match authenticatedPrincipal d context.now store headers with
      | .error (.refused message) => (⟨none, .unauthorized message⟩, store)
      | .error .multipleResults => (⟨none, .multipleResults⟩, store)
      | .ok (p, loaded) =>
          let (response, store) := handle d p loaded store context operation
          (⟨some p, response⟩, store)

/-- The history has the exchanges in their order. -/
structure Service where
  store : AccountStore := {}
  history : List Exchange := []

def step (s : Service) (r : KeyRequest d.env.settings) : Service :=
  let (exchange, store) := serve d s.store r
  ⟨store, s.history ++ [exchange]⟩

end Kortex.ApiKeyService
