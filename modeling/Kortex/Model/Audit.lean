import Kortex.Model.Types

/-
This file models the audit log: `AuditRepository.append`, `read`, `verify` and `purge_before`.
-/

namespace Kortex

/-- The columns of an entry that its digest covers. -/
structure AuditFields (M : Type) where
  orgId : Nat
  actorKind : ActorKind
  actorId : Option Nat
  action : Str
  targetType : Option Str
  targetId : Option Nat
  metadata : M
  /-- This is `str(entry.ip)`. -/
  ip : Option Str
  userAgent : Option Str
  createdAt : Instant

/-- This is a row of the table `audit_log`. -/
structure AuditLog (M : Type) extends AuditFields M where
  id : Nat
  entryHash : Option Str
  prevHash : Option Str

/-- The rows of the table stand in the order of their ids, which are positive. -/
structure AuditTable (M : Type) where
  rows : List (AuditLog M)
  sorted : rows.Pairwise fun a b => a.id < b.id
  positive : ∀ row ∈ rows, 0 < row.id

namespace Audit

/-- The first entry of a chain points at this constant. -/
def genesis : Str := List.replicate 64 '0'

/-- This is `value or default` for a string. -/
def orDefault (value : Option Str) (default : Str) : Str :=
  match value with
  | some (c :: s) => c :: s
  | _ => default

/-- This is `value or other` for two optional strings. -/
def orElse (value other : Option Str) : Option Str :=
  match value with
  | some (c :: s) => some (c :: s)
  | _ => other

variable {M S : Type}

/-- This is the dictionary that `digest` writes; `render` is the metadata with sorted keys. -/
def members (render : M → Json) (entry : AuditFields M) (prevHash : Str) : JsonDict :=
  [("org_id", .int entry.orgId), ("actor_kind", .str entry.actorKind.value),
    ("actor_id", entry.actorId.elim .null fun i => .int i), ("action", .str entry.action),
    ("target_type", entry.targetType.elim .null .str),
    ("target_id", entry.targetId.elim .null fun i => .int i), ("metadata", render entry.metadata),
    ("ip", (orElse entry.ip none).elim .null .str), ("user_agent", entry.userAgent.elim .null .str),
    ("created_at", .str entry.createdAt.isoformat), ("prev_hash", .str prevHash)]

/-- The encoder writes the members in the order of their keys. -/
def payload (render : M → Json) (entry : AuditFields M) (prevHash : Str) : Json :=
  .obj ((members render entry prevHash).insertionSort fun a b => Str.le a.1 b.1)

/-- This is `digest`, over the hash function `sha256` in hexadecimal digits. -/
def digest (sha256 : Str → Str) (render : M → Json) (entry : AuditFields M) (prevHash : Str) : Str :=
  sha256 (Json.dumps { compact := true } (payload render entry prevHash))

/-- The rows of an org, in the order of their ids. -/
def ofOrg (table : AuditTable M) (org : Nat) : List (AuditLog M) :=
  table.rows.filter fun row => row.orgId = org

/-- This is the hash that `_lock_head` and `head` take from the newest row. -/
def rowHead (row : Option (AuditLog M)) : Str := orDefault (row.bind AuditLog.entryHash) genesis

/-- This is `head`. -/
def head (table : AuditTable M) (org : Nat) : Str := rowHead (ofOrg table org).getLast?

/-- The arguments of `append` with the request context and the clock. -/
structure AppendInput (M : Type) where
  actorKind : ActorKind
  actorId : Option Nat
  action : Str
  targetType : Option Str := none
  targetId : Option Nat := none
  metadata : Option M := none
  ip : Option Str := none
  userAgent : Option Str := none
  orgId : Option Nat := none
  /-- The principal, when there is one, has this `org_id`. -/
  principalOrg : Option Nat := none
  /-- The middleware called `set_origin` with these values, if it was called. -/
  originIp : Option Str := none
  originAgent : Option Str := none
  now : Instant
  /-- The sequence of the ids may skip values. -/
  idGap : Nat := 0

def maxUserAgent : Nat := 512

/-- This is `set_origin`, which the middleware calls for each request. -/
def setOrigin (ip userAgent : Option Str) : Option Str × Option Str :=
  (orElse ip none, orElse (some ((userAgent.getD []).take maxUserAgent)) none)

inductive AppendError where
  | valueError (message : Str)
  | databaseError
deriving DecidableEq

def orgRequired : Str :=
  "audit append requires an org: pass org_id, or use a principal bound to one. " ++
    "An unbound superuser has no tenant to file this under."

/-- This is `effective_org`: the org 0 of an unbound superuser counts as none. -/
def effectiveOrg (input : AppendInput M) : Except AppendError Nat :=
  match input.orgId.or input.principalOrg with
  | some (n + 1) => .ok (n + 1)
  | _ => .error (.valueError orgRequired)

/-- The entry has these fields when its digest is taken. -/
def entryFields [EmptyCollection M] (input : AppendInput M) (org : Nat) : AuditFields M where
  orgId := org
  actorKind := input.actorKind
  actorId := input.actorId
  action := input.action
  targetType := input.targetType
  targetId := input.targetId
  metadata := input.metadata.getD ∅
  ip := orElse input.ip (setOrigin input.originIp input.originAgent).1
  userAgent := orElse input.userAgent (setOrigin input.originIp input.originAgent).2
  createdAt := input.now

def lastId (table : AuditTable M) : Nat := (table.rows.getLast?.map AuditLog.id).getD 0

theorem id_le_lastId (table : AuditTable M) (row : AuditLog M) (present : row ∈ table.rows) :
    row.id ≤ lastId table := by
  obtain ⟨rows, sorted, _⟩ := table
  simp only [lastId] at *
  rcases List.eq_nil_or_concat rows with rfl | ⟨front, last, rfl⟩
  · simp at present
  · rw [List.concat_eq_append] at *
    rw [List.getLast?_append, List.getLast?_singleton]
    simp only [Option.some_or, Option.map_some, Option.getD_some]
    rcases List.mem_append.mp present with inside | final
    · exact le_of_lt ((List.pairwise_append.mp sorted).2.2 row inside last (by simp))
    · rw [List.mem_singleton.mp final]

/-- The sequence gives a new row the largest id. -/
def insert (table : AuditTable M) (row : AuditLog M) (gap : Nat) : AuditTable M where
  rows := table.rows ++ [{ row with id := lastId table + 1 + gap }]
  sorted := by
    rw [List.pairwise_append]
    refine ⟨table.sorted, by simp, fun a present b single => ?_⟩
    rw [List.mem_singleton.mp single]
    have bound := id_le_lastId table a present
    change a.id < lastId table + 1 + gap
    omega
  positive := by
    intro other present
    rcases List.mem_append.mp present with old | new
    · exact table.positive other old
    · rw [List.mem_singleton.mp new]
      change 0 < lastId table + 1 + gap
      omega

/-- A sealed entry is stored with its own digest and the hash it was taken over. -/
def sealRow (digest : AuditFields M → Str → Str) (fields : AuditFields M) (stored : AuditFields S)
    (prevHash : Str) : AuditLog S :=
  { stored with id := 0, entryHash := some (digest fields prevHash), prevHash := some prevHash }

/-- This is `append`; `stored` is what the columns make of the entry, or their refusal. -/
def append [EmptyCollection M] (digest : AuditFields M → Str → Str)
    (stored : AuditFields M → Option (AuditFields S)) (table : AuditTable S)
    (input : AppendInput M) : Except AppendError (AuditTable S) :=
  match effectiveOrg input with
  | .error e => .error e
  | .ok org =>
      let fields := entryFields input org
      match stored fields with
      | none => .error .databaseError
      | some columns => .ok (insert table (sealRow digest fields columns (head table org)) input.idGap)

/-- A failed append leaves the table as it was. -/
def appendStep [EmptyCollection M] (digest : AuditFields M → Str → Str)
    (stored : AuditFields M → Option (AuditFields S)) (table : AuditTable S)
    (input : AppendInput M) : AuditTable S :=
  (append digest stored table input).toOption.getD table

/-- This is `read`. -/
def read (table : AuditTable S) (org : Nat) (since until' : Option Instant) (afterId limit : Nat) :
    List (AuditLog S) :=
  ((ofOrg table org).filter fun row => decide (afterId < row.id) &&
    since.all (fun t => decide (t ≤ row.createdAt)) &&
    until'.all (fun t => decide (row.createdAt < t))).take limit

/-- This is the result of walking an org's chain. -/
structure ChainStatus where
  orgId : Nat
  entries : Nat
  unchained : Nat
  intact : Bool
  brokenAt : Option Nat := none
  detail : Str := []
  anchorPrev : Str := genesis
deriving DecidableEq

/-- These are the variables of the loop of `verify`. -/
structure ChainWalk where
  expected : Option Str := none
  anchor : Str := genesis
  entries : Nat := 0
  unchained : Nat := 0

/-- This is the report of a broken chain. -/
def ChainWalk.broken (walk : ChainWalk) (org brokenAt : Nat) (detail : Str) : ChainStatus where
  orgId := org
  entries := walk.entries
  unchained := walk.unchained
  intact := false
  brokenAt := some brokenAt
  anchorPrev := walk.anchor
  detail := detail

def expectedDetail (expected : Str) (found : Option Str) : Str :=
  "expected prev_hash " ++ (orDefault (some expected) genesis).take 12 ++ "…, found " ++
    (orDefault found "null").take 12 ++ "… — an earlier entry was altered or removed"

def contentDetail : Str := "this entry's content no longer matches its digest"

/-- This is the body of the loop over the entries of a page. -/
def verifyEntry (digest : AuditFields S → Str → Str) (org : Nat) (walk : ChainWalk)
    (entry : AuditLog S) : Except ChainStatus ChainWalk :=
  let walk := { walk with entries := walk.entries + 1 }
  match entry.entryHash with
  | none => .ok { walk with unchained := walk.unchained + 1 }
  | some hash =>
      let expected := walk.expected.getD (orDefault entry.prevHash genesis)
      let walk := if walk.expected.isNone then { walk with anchor := expected } else walk
      if entry.prevHash ≠ some expected then
        .error (walk.broken org entry.id (expectedDetail expected entry.prevHash))
      else if digest entry.toAuditFields (orDefault entry.prevHash genesis) ≠ hash then
        .error (walk.broken org entry.id contentDetail)
      else .ok { walk with expected := some hash }

def ChainWalk.finish (walk : ChainWalk) (org : Nat) : ChainStatus where
  orgId := org
  entries := walk.entries
  unchained := walk.unchained
  intact := true
  anchorPrev := walk.anchor

/-- This is the loop of `verify` over the pages; each page but the last has an entry. -/
def verifyPages (digest : AuditFields S → Str → Str) (pageSize : Nat) (table : AuditTable S)
    (org : Nat) : Nat → ChainWalk → Nat → Option ChainStatus
  | 0, _, _ => none
  | fuel + 1, walk, afterId =>
      let page := read table org none none afterId pageSize
      match page.getLast? with
      | none => some (walk.finish org)
      | some last =>
          match page.foldlM (verifyEntry digest org) walk with
          | .error status => some status
          | .ok walk => verifyPages digest pageSize table org fuel walk last.id

def verifyPage : Nat := 500

/-- This is `verify` with the given page size. -/
def verify (digest : AuditFields S → Str → Str) (pageSize : Nat) (table : AuditTable S) (org : Nat) :
    Option ChainStatus :=
  verifyPages digest pageSize table org (table.rows.length + 1) {} 0

/-- This is `purge_before`. -/
def purgeBefore (table : AuditTable S) (org : Nat) (cutoff : Instant) : AuditTable S where
  rows := table.rows.filter fun row => !(row.orgId = org && decide (row.createdAt < cutoff))
  sorted := table.sorted.filter _
  positive := fun row present => table.positive row (List.mem_of_mem_filter present)

def empty : AuditTable S := ⟨[], List.Pairwise.nil, by simp⟩

end Audit
end Kortex
