import Kortex.Library.Table
import Kortex.Model.Export
import Kortex.Model.RefreshTokens

/-
This file models the requests `login` and `export_scope` with the sessions of `get_session`.
-/

namespace Kortex

/-- The columns of the users that only a login reads stand beside their rows. -/
structure LoginStore where
  accounts : AccountStore
  passwordHash : Nat → Option Str
  lastLoginAt : Nat → Option Instant

/-- An exception other than an `AuthError` becomes a response with the status 500. -/
inductive RequestError where
  | authError (message : Str)
  | valueError (message : Str)
  | databaseError
deriving DecidableEq

namespace AuditedRequests

/-- This is `append`, which raises what the entry or the database refuses. -/
def append (env : Environment) (input : Audit.AppendInput PyMetadata) :
    Service LoginStore RequestError Unit := do
  let store ← get
  match Audit.append (Audit.digestMemory env.sha256) (Audit.storedColumns env.inet)
      store.accounts.audit input with
  | .ok audit => set { store with accounts := { store.accounts with audit := audit } }
  | .error (.valueError message) => throw (.valueError message)
  | .error .databaseError => throw .databaseError

/-- This is `_org_for_user`. -/
def orgForUser (store : AccountStore) (userId : Nat) : Option Nat :=
  ((store.memberships.rows.filter fun m => m.userId == userId).find? fun m =>
    m.scope.type == .org).map fun m => m.scope.id

/-- The entry of `_audit_auth`, which has no principal. -/
def authEntry (ctx : CallContext) (userId org : Nat) (action : Str) : Audit.AppendInput PyMetadata where
  actorKind := .user
  actorId := some userId
  action := action
  targetType := some "user"
  targetId := some userId
  orgId := some org
  originIp := ctx.originIp
  originAgent := ctx.originAgent
  now := ctx.now
  idGap := ctx.auditGap

/-- This is `_audit_auth`. -/
def auditAuth (env : Environment) (ctx : CallContext) (userId : Nat) (action : Str) :
    Service LoginStore RequestError Unit := do
  match orgForUser (← get).accounts userId with
  | none => return
  | some org => append env (authEntry ctx userId org action)

/-- This is `touch_login`. -/
def touchLogin (now : Instant) (userId : Nat) : Service LoginStore RequestError Unit := do
  let store ← get
  match AuthService.userById store.accounts userId with
  | none => return
  | some user => set { store with lastLoginAt := Function.update store.lastLoginAt user.id (some now) }

/-- This is the user of an email with the hash of the password, if there are both. -/
def credential (fold : Str → Str) (store : LoginStore) (email : Str) : Option (User × Str) :=
  (UserService.getByEmail fold store.accounts email).bind fun user =>
    (store.passwordHash user.id).map fun hash => (user, hash)

def loginFailed : Str := "auth.login_failed"

def scopeExported : Str := "scope.exported"

/-- The body of a login was validated. -/
structure LoginIn where
  email : Str
  password : Str
  longEnough : 8 ≤ password.length
  shortEnough : password.length ≤ 200

/-- The ids of the two tokens of a login are random. -/
structure LoginCall where
  payload : LoginIn
  context : CallContext
  accessJti : Uuid
  refreshJti : Uuid

/-- These are the functions that a login calls: `fold` is how the column compares emails. -/
structure LoginTools where
  env : Environment
  hasher : Hasher
  fold : Str → Str

variable (tools : LoginTools)

/-- This is `login_with_password`. -/
def loginWithPassword (call : LoginCall) : Service LoginStore RequestError AuthService.LoginResult := do
  match credential tools.fold (← get) call.payload.email with
  | none => throw (.authError "invalid credentials")
  | some (user, hash) =>
      if tools.hasher.verify hash call.payload.password then
        touchLogin call.context.now user.id
        auditAuth tools.env call.context user.id "auth.login"
        return AuthService.issueTokens tools.env.settings call.context.now user call.accessJti
          call.refreshJti
      else
        auditAuth tools.env call.context user.id loginFailed
        throw (.authError "invalid credentials")

/-- The queries of an export return these rows. -/
structure ExportQueries where
  memories : List Memory
  links : List MemoryLink
  attachments : List ExportedAttachment

structure ExportCall where
  principal : Principal
  context : CallContext
  scope : ScopeFilter
  includeAttachments : Bool := true
  queries : ExportQueries

def ExportCall.input (call : ExportCall) : ExportInput where
  sourceOrgId := call.principal.orgId
  scopeType := call.scope.scopeType
  scopeId := call.scope.scopeId
  memories := call.queries.memories
  links := call.queries.links
  attachments := if call.includeAttachments then call.queries.attachments else []

/-- This is the dictionary `counts` of the manifest. -/
def exportCounts (input : ExportInput) : List (PyKey × PyValue) :=
  let memoryIdMap := Dict.ofPairs (input.memories.map fun m => (m.id, m.publicId.str))
  [(.str "memories", .int input.memories.length),
    (.str "memory_links", .int (input.links.filterMap (linkRow memoryIdMap)).length),
    (.str "attachments", .int input.attachments.length),
    (.str "attachment_chunks", .int (input.attachments.flatMap ExportedAttachment.chunks).length)]

def exportMetadata (call : ExportCall) : PyMetadata where
  members := [(.str "counts", .obj (exportCounts call.input)),
    (.str "attachments", .bool call.includeAttachments)]
  distinct := by
    simp only [PyValue.DistinctKeys, PyValue.DistinctMembers, exportCounts, List.map_cons, List.map_nil]
    decide

/-- The entry that `stream_export` appends before the bytes leave. -/
def exportEntry (call : ExportCall) : Audit.AppendInput PyMetadata where
  actorKind := call.principal.actorKind
  actorId := some call.principal.actorId
  action := scopeExported
  targetType := some call.scope.scopeType.value
  targetId := some call.scope.scopeId
  metadata := some (exportMetadata call)
  principalOrg := some call.principal.orgId
  originIp := call.context.originIp
  originAgent := call.context.originAgent
  now := call.context.now
  idGap := call.context.auditGap

/-- This is `export_to_tar`. -/
def exportToTar (call : ExportCall) : Service LoginStore RequestError Tar := do
  let tar := streamExport call.input
  append tools.env (exportEntry call)
  return tar

/-- This is the body of a `TokenOut`. -/
structure TokenOut where
  accessToken : JwtPayload
  refreshToken : JwtPayload
  expiresIn : Int

def tokenOut (result : AuthService.LoginResult) : TokenOut where
  accessToken := result.accessToken
  refreshToken := result.refreshToken
  expiresIn := result.expiresIn

inductive Reply where
  | tokens (body : TokenOut)
  | archive (content : Tar) (filename : Str)

def archiveName (scope : ScopeFilter) : Str :=
  "kortex-" ++ scope.scopeType.value ++ "-" ++ Str.ofNat scope.scopeId ++ ".tar"

/-- This is the handler `login`. -/
def login (call : LoginCall) : Handler LoginStore RequestError Reply := do
  let result ← Handler.call (loginWithPassword tools call)
  Handler.commit
  return .tokens (tokenOut result)

/-- This is the handler `export_scope`. -/
def exportScope (call : ExportCall) : Handler LoginStore RequestError Reply := do
  let body ← Handler.call (exportToTar tools call)
  return .archive body (archiveName call.scope)

inductive Request where
  | login (call : LoginCall)
  | exportScope (call : ExportCall)

def handler : Request → Handler LoginStore RequestError Reply
  | .login call => login tools call
  | .exportScope call => exportScope tools call

/-- This is the response to a request and the committed state after it. -/
def respond (store : LoginStore) (request : Request) : Except RequestError Reply × LoginStore :=
  Handler.serve (handler tools request) store

def step (store : LoginStore) (request : Request) : LoginStore := (respond tools store request).2

end AuditedRequests
end Kortex
