import Kortex.Library.Dict
import Kortex.Library.Json
import Kortex.Library.Time

/-
This file models the enumerations of the database and the values its columns hold, and the rows of the tables
`memories` and `memory_links`.
-/

namespace Kortex

inductive ScopeType where
  | org
  | workspace
  | project
  | session
deriving DecidableEq, Repr

def ScopeType.value : ScopeType → Str
  | .org => "org"
  | .workspace => "workspace"
  | .project => "project"
  | .session => "session"

inductive Role where
  | owner
  | admin
  | member
  | viewer
deriving DecidableEq, Repr

def Role.value : Role → Str
  | .owner => "owner"
  | .admin => "admin"
  | .member => "member"
  | .viewer => "viewer"

inductive Sensitivity where
  | «public»
  | internal
  | confidential
  | secret
deriving DecidableEq, Repr

def Sensitivity.value : Sensitivity → Str
  | .public => "public"
  | .internal => "internal"
  | .confidential => "confidential"
  | .secret => "secret"

/-- This is the table `_SENSITIVITY_RANK`. -/
def Sensitivity.rank : Sensitivity → Nat
  | .public => 1
  | .internal => 2
  | .confidential => 3
  | .secret => 4

inductive MemoryTier where
  | short
  | mid
  | long
deriving DecidableEq, Repr

def MemoryTier.value : MemoryTier → Str
  | .short => "short"
  | .mid => "mid"
  | .long => "long"

inductive MemoryKind where
  | fact
  | preference
  | decision
  | procedure
  | codeArtifact
  | event
  | summary
deriving DecidableEq, Repr

def MemoryKind.value : MemoryKind → Str
  | .fact => "fact"
  | .preference => "preference"
  | .decision => "decision"
  | .procedure => "procedure"
  | .codeArtifact => "code_artifact"
  | .event => "event"
  | .summary => "summary"

inductive MemorySource where
  | message
  | document
  | derived
  | manual
  | toolOutput
deriving DecidableEq, Repr

def MemorySource.value : MemorySource → Str
  | .message => "message"
  | .document => "document"
  | .derived => "derived"
  | .manual => "manual"
  | .toolOutput => "tool_output"

inductive Trust where
  | high
  | medium
  | low
deriving DecidableEq, Repr

inductive ReviewStatus where
  | approved
  | pending
  | rejected
deriving DecidableEq, Repr

inductive ReviewMode where
  | off
  | lowConfidence
  | all
deriving DecidableEq, Repr

inductive MemoryLinkType where
  | related
  | derivedFrom
  | supersedes
  | contradicts
  | partOf
deriving DecidableEq, Repr

def MemoryLinkType.value : MemoryLinkType → Str
  | .related => "related"
  | .derivedFrom => "derived_from"
  | .supersedes => "supersedes"
  | .contradicts => "contradicts"
  | .partOf => "part_of"

inductive ActorKind where
  | user
  | apiKey
  | system
deriving DecidableEq, Repr

def ActorKind.value : ActorKind → Str
  | .user => "user"
  | .apiKey => "api_key"
  | .system => "system"

/-- A UUID has 128 bits. -/
abbrev Uuid := BitVec 128

namespace Uuid

def hex (u : Uuid) : Str :=
  (List.range 32).map fun i => Json.hexDigit (u.toNat / 16 ^ (31 - i))

/-- This is `str(u)`: the hexadecimal digits in groups of 8, 4, 4, 4 and 12. -/
def str (u : Uuid) : Str :=
  Str.join "-" [u.hex.take 8, (u.hex.drop 8).take 4, (u.hex.drop 12).take 4,
    (u.hex.drop 16).take 4, u.hex.drop 20]

end Uuid

/-- The content of a JSONB column that holds an object. -/
abbrev JsonDict := Dict Str Json

end Kortex

namespace Kortex

/-- This is a row of the table `memories`. -/
structure Memory where
  id : Nat
  publicId : Uuid
  orgId : Nat
  scopeType : ScopeType
  scopeId : Nat
  createdBy : Option Nat
  sourceType : MemorySource
  sourceRef : Option JsonDict
  kind : MemoryKind
  title : Str
  body : Str
  tier : MemoryTier
  sensitivity : Sensitivity
  importance : PyFloat
  pinned : Bool
  accessCount : Nat
  lastAccessedAt : Option Instant
  decayScore : PyFloat
  embedding : Option (List PyFloat)
  embeddingModel : Option Str
  tsConfig : Str
  trust : Trust
  piiFlags : Dict Str Nat
  reviewStatus : ReviewStatus
  reviewReason : Option Str
  reviewedAt : Option Instant
  reviewedBy : Option Nat
  confidence : Option PyFloat
  contentHash : Option Str
  metadata : JsonDict
  expiresAt : Option Instant
  createdAt : Instant
  updatedAt : Instant
  deletedAt : Option Instant

/-- A memory is live until it is soft-deleted. -/
def Memory.live (m : Memory) : Bool := m.deletedAt.isNone

/-- This is a row of the table `memory_links`. -/
structure MemoryLink where
  fromMemoryId : Nat
  toMemoryId : Nat
  linkType : MemoryLinkType
  weight : PyFloat
  createdAt : Instant
deriving DecidableEq

end Kortex
