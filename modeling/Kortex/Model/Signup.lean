import Kortex.Model.Accounts

/-
This file models `SignupService.register`.
-/

namespace Kortex

/-- These are the columns of the table `workspaces` that the code reads. -/
structure Workspace where
  id : Nat
  orgId : Nat
  slug : Str
  deletedAt : Option Instant

/-- This is `max_workspaces`, where a negative number is no limit; an unknown plan is free. -/
def maxWorkspaces (plan : Str) : Int :=
  if plan = "pro".toList then -1 else if plan = "team".toList then -1 else 1

/-- The tables of the memories stand beside those of the accounts; the slugs belong to the orgs. -/
structure Store where
  db : Database
  users : UserTable := Table.empty
  memberships : MembershipTable := Table.empty
  slugs : List (Nat × Str) := []
  workspaces : List Workspace := []

namespace Store

/-- The accounts have the audit log in common with the memories. -/
def accounts (s : Store) : AccountStore where
  users := s.users
  memberships := s.memberships
  audit := s.db.audit

def withAccounts (s : Store) (accounts : AccountStore) : Store :=
  { s with users := accounts.users, memberships := accounts.memberships
           db := { s.db with audit := accounts.audit } }

end Store

inductive SignupError where
  | refused (message : Str)
  | service (error : ServiceError)

namespace SignupService

def isSlugChar (c : Char) : Bool := ('a' ≤ c && c ≤ 'z') || ('0' ≤ c && c ≤ '9')

/-- This is `re.sub(r"[^a-z0-9]+", "-", text)`; the flag says that the text before ended in a match. -/
def dashed : Bool → Str → Str
  | _, [] => []
  | inMatch, c :: rest =>
      if isSlugChar c then c :: dashed false rest
      else if inMatch then dashed true rest else '-' :: dashed true rest

/-- This is `slugify`; the parameter is `str.lower`. -/
def slugify (lower : Str → Str) (text : Str) : Str :=
  let s := Str.rstripChar '-' ((dashed false (lower text)).dropWhile (· == '-'))
  (if s = [] then "org".toList else s).take 56

def emailTaken : Str := "an account with this email already exists"

def alreadyInUse : Str := "email or org name already in use"

variable (env : Environment) (lower fold : Str → Str) (ctx : CallContext) (hex : Str)

/-- This is the org of a signup; its slug is unique. -/
def createOrg (s : Store) (orgName : Str) : Except SignupError (Nat × Store) :=
  let orgId := nextId Org.id s.db.orgs ctx.idGap
  let slug := slugify lower orgName ++ "-" ++ hex
  if s.slugs.any fun row => row.2 == slug then .error (.refused alreadyInUse)
  else if Audit.acceptsColumn 64 (some slug) && Audit.acceptsColumn 200 (some orgName) then
    .ok (orgId, { s with db := { s.db with orgs := s.db.orgs ++ [⟨orgId, "free", none⟩] }
                         slugs := s.slugs ++ [(orgId, slug)] })
  else .error (.service .databaseError)

/-- This is `WorkspaceService.create` for the default workspace of a new org. -/
def createWorkspace (s : Store) (orgId : Nat) : Except SignupError (Nat × Store) :=
  let count := (s.workspaces.filter fun w => w.orgId == orgId && w.deletedAt.isNone).length
  let cap := maxWorkspaces "free"
  if 0 ≤ cap ∧ cap ≤ count then
    .error (.service (.quotaExceeded ("workspace limit reached for the free plan (" ++ Str.ofInt cap ++
      "). Upgrade your plan to add workspaces.")))
  else if s.workspaces.any fun w => w.orgId == orgId && w.slug == "default".toList then
    .error (.refused alreadyInUse)
  else
    let workspaceId := nextId Workspace.id s.workspaces ctx.idGap
    .ok (workspaceId, { s with workspaces := s.workspaces ++ [⟨workspaceId, orgId, "default", none⟩] })

/-- This is `ProjectService.create` for the default project of a new workspace. -/
def createProject (s : Store) (orgId : Nat) : Nat × Store :=
  let projectId := nextId Project.id s.db.projects ctx.idGap
  (projectId, { s with db := { s.db with
    projects := s.db.projects ++ [⟨projectId, orgId, .off, MemoryService.defaultTsConfig, none⟩] } })

/-- This is `_super`. -/
def superOf (orgId : Nat) : Principal := { AuthService.superuserPrincipal with orgId := orgId }

/-- This is `create_with_password`, where an email may still be taken by a deleted user. -/
def createUser (s : Store) (orgId : Nat) (email : Str) : Except SignupError (Nat × Store) :=
  if s.users.rows.any fun u => fold u.email == fold email then .error (.refused alreadyInUse)
  else match UserService.createWithPassword (superOf orgId) ctx fold s.accounts email with
    | .ok (user, accounts) => .ok (user.id, s.withAccounts accounts)
    | .error e => .error (.service e)

/-- This is one round of the loop over the scopes. -/
def grantOwner (orgId userId : Nat) (s : Store) (scope : ScopeRef) : Except SignupError Store :=
  match UserService.grant env (superOf orgId) ctx s.accounts userId scope .owner with
  | .ok accounts => .ok (s.withAccounts accounts)
  | .error e => .error (.service e)

/-- This is `register` up to its commit. -/
def register (s : Store) (email orgName : Str) : Except SignupError Store := do
  if (UserService.getByEmail fold s.accounts email).isSome then throw (.refused emailTaken)
  let (orgId, s) ← createOrg lower ctx hex s orgName
  let (workspaceId, s) ← createWorkspace ctx s orgId
  let (projectId, s) := createProject ctx s orgId
  let (userId, s) ← createUser fold ctx s orgId email
  [ScopeRef.mk .org orgId, ⟨.workspace, workspaceId⟩, ⟨.project, projectId⟩].foldlM
    (grantOwner env ctx orgId userId) s

end SignupService
end Kortex
