import Kortex.Library.JsonDecode
import Kortex.Library.JsonSort
import Kortex.Model.Audit

/-
This file models what an audit entry is in memory, before the insert, what its columns return, and the
retention task of the audit log.
-/

namespace Kortex

/-- The keys that `json.dumps` accepts; a NaN key is left out because it has no place in an order. -/
inductive PyKey where
  | none
  | bool (b : Bool)
  | int (i : Int)
  | float (x : FloatText)
  | inf (negative : Bool)
  | str (s : Str)

/-- The metadata of an entry is a Python value that `json.dumps` accepts. -/
abbrev PyValue := Value PyKey

namespace PyKey

/-- The encoder turns a key into this string. -/
def text : PyKey → Str
  | none => "null"
  | bool true => "true"
  | bool false => "false"
  | int i => Str.ofInt i
  | float x => x.text
  | inf negative => (PyFloat.inf negative).text
  | str s => s

def isStr : PyKey → Bool
  | str _ => true
  | _ => false

/-- Booleans, integers and floats compare as numbers. -/
def rank : PyKey → Option (Int × ℚ)
  | bool b => some (0, if b then 1 else 0)
  | int i => some (0, i)
  | float x => (PyFloat.finite x).rank
  | inf negative => (PyFloat.inf negative).rank
  | _ => Option.none

def le (a b : PyKey) : Bool :=
  match a, b with
  | str s, str t => Str.le s t
  | _, _ => match a.rank, b.rank with
      | some x, some y => PyFloat.rankLe x y
      | _, _ => true

variable {V : Type}

/-- This is `sorted(d.items())`. -/
def sortItems (members : List (PyKey × V)) : List (PyKey × V) :=
  members.insertionSort fun a b => a.1.le b.1 = true

/-- The sort raises no `TypeError` when the keys compare with each other. -/
def comparable (members : List (PyKey × V)) : Bool :=
  members.length ≤ 1 || members.all (fun m => m.1.isStr) || members.all fun m => m.1.rank.isSome

end PyKey

namespace PyValue

mutual
/-- This is the value that `json.dumps` writes with sorted keys. -/
def sorted : PyValue → Json
  | .null => .null
  | .bool b => .bool b
  | .int i => .int i
  | .float x => .float x
  | .str s => .str s
  | .arr items => .arr (sortedItems items)
  | .obj members => .obj ((PyKey.sortItems (sortedMembers members)).map fun m => (m.1.text, m.2))

def sortedItems : List PyValue → List Json
  | [] => []
  | item :: rest => sorted item :: sortedItems rest

def sortedMembers : List (PyKey × PyValue) → List (PyKey × Json)
  | [] => []
  | (key, value) :: rest => (key, sorted value) :: sortedMembers rest
end

mutual
/-- The sort of every dictionary inside the value succeeds. -/
def sortable : PyValue → Bool
  | .arr items => sortableItems items
  | .obj members => PyKey.comparable members && sortableMembers members
  | _ => true

def sortableItems : List PyValue → Bool
  | [] => true
  | item :: rest => sortable item && sortableItems rest

def sortableMembers : List (PyKey × PyValue) → Bool
  | [] => true
  | (_, value) :: rest => sortable value && sortableMembers rest
end

/-- A JSONB number is a `numeric`. It is read back as an integer when it has no decimal places,
and it has no negative zero. -/
def respell (x : FloatText) : Json :=
  if x.scale = 0 then .int x.value.num
  else if x.value = 0 then .float (.finite (floatText "0.0" zero_scanned zero_tail))
  else .float (.finite x)

mutual
/-- This is the value that a JSONB column returns. -/
def jsonb : PyValue → Json
  | .null => .null
  | .bool b => .bool b
  | .int i => .int i
  | .float (.finite x) => respell x
  | .float x => .float x
  | .str s => .str s
  | .arr items => .arr (jsonbItems items)
  | .obj members => .obj (jsonbMembers members)

def jsonbItems : List PyValue → List Json
  | [] => []
  | item :: rest => jsonb item :: jsonbItems rest

def jsonbMembers : List (PyKey × PyValue) → List (Str × Json)
  | [] => []
  | (key, value) :: rest => (key.text, jsonb value) :: jsonbMembers rest
end

/-- A text column refuses the null character. -/
def accepts (s : Str) : Bool := s.all fun c => c.toNat ≠ 0

mutual
/-- A JSONB column refuses NaN, the infinities and the null character. -/
def storable : PyValue → Bool
  | .float (.finite _) => true
  | .float _ => false
  | .str s => accepts s
  | .arr items => storableItems items
  | .obj members => storableMembers members
  | _ => true

def storableItems : List PyValue → Bool
  | [] => true
  | item :: rest => storable item && storableItems rest

def storableMembers : List (PyKey × PyValue) → Bool
  | [] => true
  | (key, value) :: rest => accepts key.text && storable value && storableMembers rest
end

mutual
/-- The keys of each dictionary inside the value are distinct. -/
def DistinctKeys : PyValue → Prop
  | .arr items => DistinctItems items
  | .obj members => (members.map fun m => m.1.text).Nodup ∧ DistinctMembers members
  | _ => True

def DistinctItems : List PyValue → Prop
  | [] => True
  | item :: rest => DistinctKeys item ∧ DistinctItems rest

def DistinctMembers : List (PyKey × PyValue) → Prop
  | [] => True
  | (_, value) :: rest => DistinctKeys value ∧ DistinctMembers rest
end

end PyValue

/-- The metadata of an entry is a dictionary with distinct keys. -/
structure PyMetadata where
  members : List (PyKey × PyValue)
  distinct : PyValue.DistinctKeys (.obj members)

instance : EmptyCollection PyMetadata :=
  ⟨⟨[], by rw [PyValue.DistinctKeys, PyValue.DistinctMembers]; exact ⟨List.nodup_nil, trivial⟩⟩⟩

namespace Audit

def acceptsColumn (width : Nat) (s : Option Str) : Bool :=
  s.all fun s => PyValue.accepts s && decide (s.length ≤ width)

/-- The digest of an entry in memory writes its metadata with sorted keys. -/
def digestMemory (sha256 : Str → Str) : AuditFields PyMetadata → Str → Str :=
  digest sha256 fun m => PyValue.sorted (.obj m.members)

/-- The digest of a stored entry writes the metadata that JSONB returned with sorted keys. -/
def digestStored (sha256 : Str → Str) : AuditFields JsonDict → Str → Str :=
  digest sha256 fun d => Json.sortKeys (.obj d)

/-- These are the columns of the stored entry. The function `inet` returns the canonical spelling
of an address that the INET column accepts. An entry whose digest raises is not stored either. -/
def storedColumns (inet : Str → Option Str) (fields : AuditFields PyMetadata) :
    Option (AuditFields JsonDict) :=
  if PyValue.sortable (.obj fields.metadata.members) && PyValue.storable (.obj fields.metadata.members)
      && acceptsColumn 64 (some fields.action) && acceptsColumn 64 fields.targetType
      && acceptsColumn maxUserAgent fields.userAgent then
    let metadata := PyValue.jsonbMembers fields.metadata.members
    match fields.ip with
    | none => some { fields with metadata := metadata, ip := none }
    | some ip => (inet ip).map fun canonical =>
        { fields with metadata := metadata, ip := some canonical }
  else none

end Audit
end Kortex

namespace Kortex.Audit

/-- This is the metadata `{"removed": removed, "cutoff": cutoff.isoformat()}`. -/
def purgeMetadata (removed : Nat) (cutoff : Instant) : PyMetadata where
  members := [(.str "removed", .int removed), (.str "cutoff", .str cutoff.isoformat)]
  distinct := by
    simp only [PyValue.DistinctKeys, PyValue.DistinctMembers, List.map_cons, List.map_nil]
    decide

/-- The entry is appended for the principal of `_system`, and outside of any request. -/
def purgeRecord (org removed : Nat) (cutoff now : Instant) (gap : Nat) : AppendInput PyMetadata where
  actorKind := .system
  actorId := none
  action := "audit.purged"
  targetType := some "org"
  targetId := some org
  metadata := some (purgeMetadata removed cutoff)
  orgId := some org
  principalOrg := some org
  now := now
  idGap := gap

/-- This is the number of rows that `purge_before` deletes. -/
def removedBefore {S : Type} (table : AuditTable S) (org : Nat) (cutoff : Instant) : Nat :=
  (ofOrg table org).countP fun row => decide (row.createdAt < cutoff)

/-- This is `_purge_org`. The deletion and the append are one transaction, which an error of the
append rolls back. -/
def purgeOrg (sha256 : Str → Str) (inet : Str → Option Str) (table : AuditTable JsonDict) (org : Nat)
    (cutoff now : Instant) (gap : Nat) : Except AppendError (Nat × AuditTable JsonDict) :=
  let removed := removedBefore table org cutoff
  let purged := purgeBefore table org cutoff
  if removed = 0 then .ok (0, purged)
  else (append (digestMemory sha256) (storedColumns inet) purged
      (purgeRecord org removed cutoff now gap)).map fun table => (removed, table)

end Kortex.Audit
