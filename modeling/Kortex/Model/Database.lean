import Kortex.Library.Table
import Kortex.Model.AccessControl
import Kortex.Model.AuditStorage
import Kortex.Model.Types

/-
This file models the tables that the repositories read, and what their columns accept.
-/

namespace Kortex

/-- These are the columns of the table `orgs` that the code reads. -/
structure Org where
  id : Nat
  plan : Str
  deletedAt : Option Instant

/-- These are the columns of the table `projects` that the code reads. -/
structure Project where
  id : Nat
  orgId : Nat
  reviewMode : ReviewMode
  textSearchConfig : Str
  deletedAt : Option Instant

/-- Both the id and the public id of a memory are unique, and the ids increase. -/
abbrev MemoryTable :=
  Table (fun m : Memory => (m.id, m.publicId)) fun a b => a.1 < b.1 ∧ a.2 ≠ b.2

structure Database where
  orgs : List Org := []
  projects : List Project := []
  memories : MemoryTable := Table.empty
  links : List MemoryLink := []
  audit : AuditTable JsonDict := Audit.empty

/-- This is `tenant_query`: a superuser reads the rows of every org. -/
def tenantQuery {Row : Type} (orgOf : Row → Nat) (p : Principal) (rows : List Row) : List Row :=
  rows.filter fun row => p.isSuperuser || orgOf row == p.orgId

namespace Json

mutual
/-- A JSONB column refuses NaN, the infinities and the null character. -/
def storable : Json → Bool
  | .float (.finite _) => true
  | .float _ => false
  | .str s => PyValue.accepts s
  | .arr items => storableItems items
  | .obj members => storableMembers members
  | _ => true

def storableItems : List Json → Bool
  | [] => true
  | item :: rest => storable item && storableItems rest

def storableMembers : JsonDict → Bool
  | [] => true
  | (key, value) :: rest => PyValue.accepts key && storable value && storableMembers rest
end

/-- This is the operator `->>` on a member: a string is its own text, and null has none. -/
def astext : Json → Option Str
  | .null => none
  | .str s => some s
  | value => some (dumps { ensureAscii := false } value)

end Json

/-- The columns of the table `memories` accept the values of the row. -/
def Memory.storable (m : Memory) : Bool :=
  Audit.acceptsColumn 500 (some m.title) && PyValue.accepts m.body &&
    Json.storableMembers m.metadata && m.sourceRef.all Json.storableMembers &&
    Audit.acceptsColumn 200 m.reviewReason && Audit.acceptsColumn 128 m.embeddingModel

def lastMemoryId (db : Database) : Nat := (db.memories.rows.getLast?.map Memory.id).getD 0

theorem id_le_lastMemoryId (db : Database) (m : Memory) (present : m ∈ db.memories.rows) :
    m.id ≤ lastMemoryId db := by
  have sorted := db.memories.pairwise
  rw [lastMemoryId]
  rcases List.eq_nil_or_concat db.memories.rows with none | ⟨front, last, split⟩
  · simp [none] at present
  · rw [List.concat_eq_append] at split
    rw [split] at present sorted ⊢
    rw [List.getLast?_append, List.getLast?_singleton]
    simp only [Option.some_or, Option.map_some, Option.getD_some]
    rcases List.mem_append.mp present with inside | final
    · exact le_of_lt ((List.pairwise_append.mp sorted).2.2 m inside last (by simp)).1
    · rw [List.mem_singleton.mp final]

/-- The flush of a new memory gives it the next id; the public id must be new. -/
def Database.insertMemory (db : Database) (m : Memory) (gap : Nat) : Option (Memory × Database) :=
  let row := { m with id := lastMemoryId db + 1 + gap }
  if fresh : ∀ other ∈ db.memories.rows, other.publicId ≠ m.publicId then
    if row.storable then
      some (row, { db with memories := db.memories.insert row fun other present =>
        ⟨by have := id_le_lastMemoryId db other present; change other.id < lastMemoryId db + 1 + gap; omega,
          fresh other present⟩ })
    else none
  else none

/-- The flush of a changed memory writes its row. -/
def Database.updateMemory (db : Database) (id : Nat) (change : Memory → Memory)
    (keeps : ∀ m, ((change m).id, (change m).publicId) = (m.id, m.publicId)) : Database :=
  { db with memories := db.memories.update (fun m => m.id == id) change keeps }

end Kortex
