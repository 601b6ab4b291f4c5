import Kortex.Library.Dict
import Kortex.Model.MemoryRepo

/-
This file proves what the queries return and what the updates do to the rows.
-/

namespace Kortex

variable (p : Principal) (db : Database)

theorem mem_tenantQuery {Row : Type} (orgOf : Row → Nat) (rows : List Row) (row : Row) :
    row ∈ tenantQuery orgOf p rows ↔ row ∈ rows ∧ (p.isSuperuser = true ∨ orgOf row = p.orgId) := by
  simp [tenantQuery]

/-- The principal may query the row, and it is not deleted. -/
def Visible (m : Memory) : Prop := (p.isSuperuser = true ∨ m.orgId = p.orgId) ∧ m.live = true

theorem MemoryRepo.mem_liveRows (m : Memory) :
    m ∈ MemoryRepo.liveRows p db ↔ m ∈ db.memories.rows ∧ Visible p m := by
  rw [MemoryRepo.liveRows, List.mem_filter, mem_tenantQuery, Visible, and_assoc]

theorem memory_eq_of_id (m m' : Memory) (first : m ∈ db.memories.rows)
    (second : m' ∈ db.memories.rows) (same : m.id = m'.id) : m = m' := by
  rcases db.memories.eq_or_apart m m' first second with equal | less | greater
  · exact equal
  · have strict : m.id < m'.id := less.1
    omega
  · have strict : m'.id < m.id := greater.1
    omega

theorem memoryIds_nodup : (db.memories.rows.map Memory.id).Nodup := by
  rw [List.nodup_iff_pairwise_ne, List.pairwise_map]
  exact db.memories.pairwise.imp fun before => ne_of_lt before.1

/-- This is the row with an id, if there is one. -/
def storedRow (id : Nat) : Option Memory := db.memories.rows.find? fun m => m.id == id

theorem storedRow_eq_some (id : Nat) (m : Memory) :
    storedRow db id = some m ↔ m ∈ db.memories.rows ∧ m.id = id := by
  rw [← find?_key Memory.id db.memories.rows (memoryIds_nodup db) id m]
  rfl

theorem id_changeRow (chosen : Memory → Bool) (change : Memory → Memory)
    (keeps : ∀ m, ((change m).id, (change m).publicId) = (m.id, m.publicId)) (m : Memory) :
    (Table.changeRow chosen change m).id = m.id := by
  rw [Table.changeRow]
  split
  · exact (Prod.mk.inj (keeps m)).1
  · rfl

/-- An UPDATE changes the row that is found under an id if it is chosen. -/
theorem storedRow_update (chosen : Memory → Bool) (change : Memory → Memory)
    (keeps : ∀ m, ((change m).id, (change m).publicId) = (m.id, m.publicId)) (db' : Database)
    (same : db'.memories = db.memories.update chosen change keeps) (id : Nat) :
    storedRow db' id = (storedRow db id).map (Table.changeRow chosen change) := by
  rw [storedRow, same, Table.update, List.find?_map]
  simp only [Function.comp_def, id_changeRow chosen change keeps]
  rfl

theorem publicId_inj (a b : Nat) (small : a < 2 ^ 128) (small' : b < 2 ^ 128)
    (same : BitVec.ofNat 128 a = BitVec.ofNat 128 b) : a = b := by
  have values := congrArg BitVec.toNat same
  rwa [BitVec.toNat_ofNat, BitVec.toNat_ofNat, Nat.mod_eq_of_lt small, Nat.mod_eq_of_lt small'] at values

theorem memory_eq_of_publicId (m m' : Memory) (first : m ∈ db.memories.rows)
    (second : m' ∈ db.memories.rows) (same : m.publicId = m'.publicId) : m = m' := by
  rcases db.memories.eq_or_apart m m' first second with equal | less | greater
  · exact equal
  · exact absurd same less.2
  · exact absurd same.symm greater.2

/-- An update of a row of the table replaces this row and no other. -/
theorem mem_updateMemory (m : Memory) (present : m ∈ db.memories.rows) (change : Memory → Memory)
    (keeps : ∀ m, ((change m).id, (change m).publicId) = (m.id, m.publicId)) (x : Memory) :
    x ∈ (db.updateMemory m.id change keeps).memories.rows ↔
      (x ∈ db.memories.rows ∧ x ≠ m) ∨ x = change m := by
  rw [Database.updateMemory, Table.mem_update]
  constructor
  · rintro ⟨row, inside, changed⟩
    by_cases same : row.id = m.id
    · rw [memory_eq_of_id db row m inside present same] at changed
      rw [Table.changeRow, if_pos (by simp)] at changed
      exact Or.inr changed.symm
    · rw [Table.changeRow, if_neg (by simpa using same)] at changed
      rw [← changed]
      exact Or.inl ⟨inside, fun equal => same (by rw [equal])⟩
  · rintro (⟨inside, other⟩ | rfl)
    · refine ⟨x, inside, ?_⟩
      have different : x.id ≠ m.id := fun same => other (memory_eq_of_id db x m inside present same)
      rw [Table.changeRow, if_neg (by simpa using different)]
    · exact ⟨m, present, by rw [Table.changeRow, if_pos (by simp)]⟩

theorem memoryIds_updateMemory (id : Nat) (change : Memory → Memory)
    (keeps : ∀ m, ((change m).id, (change m).publicId) = (m.id, m.publicId)) :
    (db.updateMemory id change keeps).memories.rows.map Memory.id = db.memories.rows.map Memory.id := by
  rw [Database.updateMemory, Table.update, List.map_map]
  exact List.map_congr_left fun m _ => id_changeRow _ change keeps m

/-- Every row of the table has the property. -/
def EveryMemory (Q : Memory → Prop) (db : Database) : Prop := ∀ m ∈ db.memories.rows, Q m

/-- An update of one row keeps a property of all rows exactly when the new row has it. -/
theorem everyMemory_updateMemory {Q : Memory → Prop} (all : EveryMemory Q db) (m : Memory)
    (present : m ∈ db.memories.rows) (change : Memory → Memory)
    (keeps : ∀ m, ((change m).id, (change m).publicId) = (m.id, m.publicId)) :
    EveryMemory Q (db.updateMemory m.id change keeps) ↔ Q (change m) := by
  have members := mem_updateMemory db m present change keeps
  constructor
  · intro after
    exact after _ ((members _).mpr (Or.inr rfl))
  · intro own x inside
    rcases (members x).mp inside with ⟨old, _⟩ | rfl
    · exact all x old
    · exact own

/-- An insert appends the row under the next id, and changes no other table. -/
theorem insertMemory_done (m : Memory) (gap : Nat) (created : Memory) (db' : Database)
    (done : db.insertMemory m gap = some (created, db')) :
    created = { m with id := lastMemoryId db + 1 + gap } ∧ created.storable = true ∧
      (∀ other ∈ db.memories.rows, other.publicId ≠ m.publicId) ∧
      db'.memories.rows = db.memories.rows ++ [created] ∧
      db' = { db with memories := db'.memories } := by
  simp only [Database.insertMemory] at done
  split at done
  · rename_i fresh
    split at done
    · rename_i accepted
      obtain ⟨rfl, rfl⟩ := Prod.mk.inj (Option.some.inj done)
      exact ⟨rfl, accepted, fresh, rfl, rfl⟩
    · exact absurd done (by simp)
  · exact absurd done (by simp)

/-- A new row is stored under fresh keys. -/
theorem insertMemory_cases (m : Memory) (gap : Nat) (created : Memory) (db' : Database)
    (done : db.insertMemory m gap = some (created, db')) :
    created = { m with id := created.id } ∧ created.storable = true ∧
      created ∉ db.memories.rows ∧
      ∀ x, x ∈ db'.memories.rows ↔ x ∈ db.memories.rows ∨ x = created := by
  obtain ⟨rfl, accepted, fresh, rows, _⟩ := insertMemory_done db m gap created db' done
  refine ⟨rfl, accepted, fun present => fresh _ present rfl, fun x => ?_⟩
  rw [rows, List.mem_append, List.mem_singleton]

theorem insertMemory_rows (db db' : Database) (m created : Memory) (gap : Nat)
    (done : db.insertMemory m gap = some (created, db')) :
    db'.memories.rows = db.memories.rows ++ [created] ∧
      ∀ other ∈ db.memories.rows, (other.id, other.publicId) ≠ (created.id, created.publicId) := by
  obtain ⟨rfl, _, fresh, rows, _⟩ := insertMemory_done db m gap created db' done
  exact ⟨rows, fun other present same => fresh other present (Prod.mk.inj same).2⟩

theorem insertMemory_links (db db' : Database) (m created : Memory) (gap : Nat)
    (done : db.insertMemory m gap = some (created, db')) : db'.links = db.links := by
  obtain ⟨_, _, _, _, same⟩ := insertMemory_done db m gap created db' done
  rw [same]

theorem insertMemory_some (db : Database) (m : Memory) (gap : Nat)
    (fresh : ∀ other ∈ db.memories.rows, other.publicId ≠ m.publicId) (storable : m.storable = true) :
    ∃ created db', db.insertMemory m gap = some (created, db') := by
  unfold Database.insertMemory
  rw [dif_pos fresh, if_pos (by exact storable)]
  exact ⟨_, _, rfl⟩

namespace MemoryRepo

/-- An update that moves no row to another org and revives or deletes none updates the live rows. -/
theorem liveRows_update (db' : Database) (chosen : Memory → Bool) (change : Memory → Memory)
    (keeps : ∀ m, ((change m).id, (change m).publicId) = (m.id, m.publicId))
    (same : db'.memories = db.memories.update chosen change keeps)
    (seen : ∀ m, (change m).orgId = m.orgId ∧ (change m).live = m.live) :
    liveRows p db' = (liveRows p db).map (Table.changeRow chosen change) := by
  have row (m : Memory) : (Table.changeRow chosen change m).orgId = m.orgId ∧
      (Table.changeRow chosen change m).live = m.live := by
    rw [Table.changeRow]
    split
    · exact seen m
    · exact ⟨rfl, rfl⟩
  rw [liveRows, liveRows, tenantQuery, tenantQuery, same, Table.update, List.filter_map, List.filter_map]
  simp only [Function.comp_def, row]

theorem getByPublicId_update (db' : Database) (chosen : Memory → Bool) (change : Memory → Memory)
    (keeps : ∀ m, ((change m).id, (change m).publicId) = (m.id, m.publicId))
    (same : db'.memories = db.memories.update chosen change keeps)
    (seen : ∀ m, (change m).orgId = m.orgId ∧ (change m).live = m.live) (publicId : Uuid) :
    getByPublicId p db' publicId =
      (getByPublicId p db publicId).map (Table.changeRow chosen change) := by
  have row (m : Memory) : (Table.changeRow chosen change m).publicId = m.publicId := by
    rw [Table.changeRow]
    split
    · exact (Prod.mk.inj (keeps m)).2
    · rfl
  rw [getByPublicId, liveRows_update p db db' chosen change keeps same seen, List.find?_map]
  simp only [Function.comp_def, row]
  rfl

theorem getByPublicId_some (publicId : Uuid) (m : Memory)
    (found : getByPublicId p db publicId = some m) : m ∈ liveRows p db ∧ m.publicId = publicId := by
  have holds := List.find?_some found
  exact ⟨List.mem_of_find?_eq_some found, by simpa using holds⟩

/-- A visible row is found under its public id. -/
theorem getByPublicId_of_mem (m : Memory) (present : m ∈ liveRows p db) :
    getByPublicId p db m.publicId = some m := by
  cases found : getByPublicId p db m.publicId with
  | none =>
      have absent := List.find?_eq_none.mp found m present
      simp at absent
  | some other =>
      obtain ⟨inside, same⟩ := getByPublicId_some p db _ other found
      rw [mem_liveRows] at inside present
      rw [memory_eq_of_publicId db other m inside.1 present.1 same]

theorem getById_some (id : Nat) (m : Memory) (found : getById p db id = some m) :
    m ∈ liveRows p db ∧ m.id = id := by
  have holds := List.find?_some found
  exact ⟨List.mem_of_find?_eq_some found, by simpa using holds⟩

theorem getById_of_mem (m : Memory) (present : m ∈ liveRows p db) :
    getById p db m.id = some m := by
  cases found : getById p db m.id with
  | none =>
      have absent := List.find?_eq_none.mp found m present
      simp at absent
  | some other =>
      obtain ⟨inside, same⟩ := getById_some p db _ other found
      rw [mem_liveRows] at inside present
      rw [memory_eq_of_id db other m inside.1 present.1 same]

theorem findByContentHash_some (scope : ScopeFilter) (hash : Str) (m : Memory)
    (found : findByContentHash p db scope hash = some m) :
    m ∈ liveRows p db ∧ m.inScope scope = true ∧ m.contentHash = some hash := by
  have member := List.mem_of_mem_head? (by rw [Option.mem_def]; exact found)
  rw [List.mem_insertionSort, List.mem_filter] at member
  obtain ⟨inside, holds⟩ := member
  simp only [Bool.and_eq_true, beq_iff_eq] at holds
  exact ⟨inside, holds⟩

end MemoryRepo

theorem findByContentHash_none (p : Principal) (db : Database) (scope : ScopeFilter) (hash : Str)
    (missing : MemoryRepo.findByContentHash p db scope hash = none) (m : Memory)
    (inside : m ∈ MemoryRepo.liveRows p db) (own : m.inScope scope = true) :
    m.contentHash ≠ some hash := by
  intro same
  have found : m ∈ ((MemoryRepo.liveRows p db).filter fun m => m.inScope scope &&
      m.contentHash == some hash).insertionSort MemoryRepo.oldestFirst := by
    rw [List.mem_insertionSort, List.mem_filter]
    exact ⟨inside, by simp [own, same]⟩
  rw [List.head?_eq_none_iff.mp missing] at found
  exact List.not_mem_nil found

end Kortex
