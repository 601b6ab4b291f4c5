import Kortex.Model.Types

/-
This file models the principal of a request and the policy decisions about it.
-/

namespace Kortex

/-- This is a polymorphic pointer `(scope_type, scope_id)`. -/
structure ScopeRef where
  type : ScopeType
  id : Nat
deriving DecidableEq

/-- This is `str(scope)`. -/
def ScopeRef.str (scope : ScopeRef) : Str := scope.type.value ++ ":" ++ Str.ofNat scope.id

structure Principal where
  actorId : Nat
  actorKind : ActorKind
  orgId : Nat
  /-- An API key that is bound to a scope acts within it. -/
  scope : Option ScopeRef := none
  roles : Dict ScopeRef Role := []
  keyScopes : List Str := []
  maxSensitivity : Sensitivity := .internal
  isSuperuser : Bool := false

namespace Principal

def roleFor (p : Principal) (scope : ScopeRef) : Option Role := Dict.get? p.roles scope

def hasKeyScope (p : Principal) (name : Str) : Bool := p.keyScopes.isEmpty || p.keyScopes.contains name

/-- This is `created_by`, `reviewer_id` and the like: only a user has an id there. -/
def userId (p : Principal) : Option Nat := if p.actorKind = .user then some p.actorId else none

end Principal

/-- A resource is a scope with a sensitivity. -/
structure ResourceRef where
  scope : ScopeRef
  sensitivity : Sensitivity

namespace AccessControl

/-- This is the table `_READ_SENSITIVITY_BY_ROLE`. -/
def readSensitivityByRole : Role → Option Sensitivity
  | .viewer | .member => some .confidential
  | .admin | .owner => some .secret

/-- This is the table `_WRITE_SENSITIVITY_BY_ROLE`. -/
def writeSensitivityByRole : Role → Option Sensitivity
  | .viewer => none
  | .member => some .confidential
  | .admin | .owner => some .secret

def roleFor (p : Principal) (scope : ScopeRef) : Option Role :=
  if p.isSuperuser then some .owner else p.roleFor scope

/-- This decision takes the largest sensitivity of the role. -/
def allows (byRole : Role → Option Sensitivity) (p : Principal) (resource : ResourceRef) : Bool :=
  p.isSuperuser || ((roleFor p resource.scope).bind byRole).any fun largest =>
    decide (resource.sensitivity.rank ≤ largest.rank)

def canRead : Principal → ResourceRef → Bool := allows readSensitivityByRole

def canWrite : Principal → ResourceRef → Bool := allows writeSensitivityByRole

/-- This is the table `_ROLE_RANK`. -/
def roleRank : Role → Nat
  | .viewer => 1
  | .member => 2
  | .admin => 3
  | .owner => 4

def canAdmin (p : Principal) (scope : ScopeRef) : Bool :=
  p.isSuperuser || (roleFor p scope).any fun role => decide (roleRank .admin ≤ roleRank role)

def canOwn (p : Principal) (scope : ScopeRef) : Bool :=
  p.isSuperuser || roleFor p scope == some .owner

def isAdminAnywhere (p : Principal) : Bool :=
  p.isSuperuser || p.roles.any fun entry => decide (roleRank .admin ≤ roleRank entry.2)

end AccessControl

/-- This is `max_memories`, where a negative number is no limit; an unknown plan is free. -/
def maxMemories (plan : Str) : Int :=
  if plan = "pro".toList then 100000
  else if plan = "team".toList then 1000000
  else 25000

end Kortex
