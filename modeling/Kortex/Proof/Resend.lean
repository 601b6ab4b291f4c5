import Kortex.Library.Retry
import Kortex.Model.SdkClient
import Kortex.Proof.ReviewSession
import Kortex.Proof.ToolErrors

/-
This file proves what a second execution of a request does to the tables.
-/

namespace Kortex

/-- A change that hides an earlier change of the row makes the earlier update vanish. -/
theorem updateMemory_updateMemory (db : Database) (id : Nat) (change change' : Memory → Memory)
    (keeps : ∀ m, ((change m).id, (change m).publicId) = (m.id, m.publicId))
    (keeps' : ∀ m, ((change' m).id, (change' m).publicId) = (m.id, m.publicId))
    (hides : ∀ m, change' (change m) = change' m) :
    (db.updateMemory id change keeps).updateMemory id change' keeps' =
      db.updateMemory id change' keeps' := by
  have rows : (db.memories.rows.map (Table.changeRow (fun row => row.id == id) change)).map
      (Table.changeRow (fun row => row.id == id) change') =
        db.memories.rows.map (Table.changeRow (fun row => row.id == id) change') := by
    rw [List.map_map]
    apply List.map_congr_left
    intro row _
    have same : (change row).id = row.id := (Prod.mk.inj (keeps row)).1
    unfold Function.comp Table.changeRow
    by_cases hit : row.id = id
    · simp [hit, same, hides]
    · simp [hit]
  simp only [Database.updateMemory, Table.update, rows]

theorem Memory.patched_patched (now now' : Instant) (patch : MemoryPatch) (m : Memory) :
    (m.patched now patch).patched now' patch = m.patched now' patch := by
  obtain ⟨title, body, kind, sensitivity, importance, metadata⟩ := patch
  cases title <;> cases body <;> cases kind <;> cases sensitivity <;> cases importance <;>
    cases metadata <;> rfl

namespace MemoryService

open ExportService (capOf countOf enforceMemoryQuota_eq)

variable {env : Environment} {p : Principal}

/-- This is the database after a call that commits or rolls back. -/
def dbAfter {α : Type} (db : Database) (result : Except ServiceError (α × Session)) : Database :=
  (afterCall ⟨db, {}⟩ result).db

/-- A second update hides the first one. -/
theorem update_twice (ctx ctx' : CallContext) (db : Database) (publicId : Uuid) (patch : MemoryPatch) :
    let after (ctx : CallContext) (db : Database) := dbAfter db (update p ctx ⟨db, {}⟩ publicId patch)
    after ctx' (after ctx db) = after ctx db ∨ after ctx' (after ctx db) = after ctx' db := by
  intro after
  cases first : update p ctx ⟨db, {}⟩ publicId patch with
  | error e =>
      have same : after ctx db = db := by simp only [after, first]; rfl
      rw [same]
      exact Or.inr rfl
  | ok result =>
      obtain ⟨row, s⟩ := result
      have same : after ctx db = s.db := by simp only [after, first]; rfl
      rw [same]
      rcases update_cases publicId patch row first with ⟨_, rfl⟩ | ⟨m, edits, updated⟩
      · exact Or.inr rfl
      · cases second : update p ctx' ⟨s.db, {}⟩ publicId patch with
        | error e =>
            left
            simp only [after, second]
            rfl
        | ok result' =>
            obtain ⟨row', s'⟩ := result'
            have same' : after ctx' s.db = s'.db := by simp only [after, second]; rfl
            rw [same']
            rcases update_cases publicId patch row' second with ⟨_, rfl⟩ | ⟨m', edits', updated'⟩
            · exact Or.inl rfl
            · right
              obtain ⟨present, own⟩ := MemoryRepo.getByPublicId_some p db publicId m edits.found
              have stored := ((MemoryRepo.mem_liveRows p db m).mp present).1
              have current : m' = m.patched ctx.now patch := by
                obtain ⟨present', own'⟩ := MemoryRepo.getByPublicId_some p s.db publicId m' edits'.found
                apply memory_eq_of_publicId s.db m' _ ((MemoryRepo.mem_liveRows p s.db m').mp present').1
                · rw [updated]
                  exact (mem_updateMemory db m stored _ (Memory.patched_ident ctx.now patch) _).mpr
                    (Or.inr rfl)
                · exact own'.trans own.symm
              have storable : (m.patched ctx'.now patch).storable = true := by
                rw [← Memory.patched_patched ctx.now ctx'.now patch m, ← current]
                exact edits'.storable
              have alone := update_of_edits (s := ⟨db, {}⟩) publicId patch m
                ⟨edits.scope, edits.found, edits.write, edits.sensitivity, storable⟩
              simp only [after, alone]
              rw [updated', updated, current]
              exact updateMemory_updateMemory db m.id _ _ _ _
                (Memory.patched_patched ctx.now ctx'.now patch)

/-- The principal sees the row, and the batch names it. -/
def inBatch (p : Principal) (publicIds : List Uuid) (m : Memory) : Bool :=
  (p.isSuperuser || m.orgId == p.orgId) && m.live && decide (m.publicId ∈ publicIds)

theorem inBatch_iff (publicIds : List Uuid) (m : Memory) :
    inBatch p publicIds m = true ↔ Visible p m ∧ m.publicId ∈ publicIds := by
  simp [inBatch, Visible]

/-- The principal may write every memory of the batch. -/
def WritesAllOf (p : Principal) (db : Database) (publicIds : List Uuid) : Prop :=
  ∀ publicId ∈ publicIds, requireScope p "write:memory" = .ok () ∧
    ∀ m ∈ db.memories.rows, Visible p m → m.publicId = publicId → requireWrite p m = .ok ()

/-- This is what pinning or unpinning a batch makes of the rows. -/
def pinAll (p : Principal) (now : Instant) (pinned : Bool) (publicIds : List Uuid) (db : Database) :
    Database where
  orgs := db.orgs
  projects := db.projects
  memories := db.memories.update (inBatch p publicIds) (Memory.withPinned now pinned)
    (Memory.withPinned_ident now pinned)
  links := db.links
  audit := db.audit

variable {now now' : Instant} {pinned : Bool} {db : Database}

theorem pinAll_congr (db' : Database) (publicIds publicIds' : List Uuid)
    (rows : db.memories.rows.map (Table.changeRow (inBatch p publicIds) (Memory.withPinned now pinned)) =
      db'.memories.rows.map (Table.changeRow (inBatch p publicIds') (Memory.withPinned now' pinned)))
    (orgs : db.orgs = db'.orgs) (projects : db.projects = db'.projects) (links : db.links = db'.links)
    (audit : db.audit = db'.audit) :
    pinAll p now pinned publicIds db = pinAll p now' pinned publicIds' db' := by
  simp only [pinAll, Table.update, rows, orgs, projects, links, audit]

theorem inBatch_changeRow (publicIds publicIds' : List Uuid) (m : Memory) :
    inBatch p publicIds' (Table.changeRow (inBatch p publicIds) (Memory.withPinned now pinned) m) =
      inBatch p publicIds' m := by
  unfold Table.changeRow
  split <;> rfl

/-- A batch after a batch on the same rows hides the first one. -/
theorem pinAll_pinAll (publicIds : List Uuid) :
    pinAll p now' pinned publicIds (pinAll p now pinned publicIds db) =
      pinAll p now' pinned publicIds db := by
  refine pinAll_congr _ _ _ ?_ rfl rfl rfl rfl
  rw [pinAll, Table.update, List.map_map]
  apply List.map_congr_left
  intro m _
  unfold Function.comp
  rw [Table.changeRow, inBatch_changeRow]
  unfold Table.changeRow
  split
  · rfl
  · rfl

theorem pinAll_cons (publicId : Uuid) (rest : List Uuid) :
    pinAll p now pinned rest (pinAll p now pinned [publicId] db) =
      pinAll p now pinned (publicId :: rest) db := by
  refine pinAll_congr _ _ _ ?_ rfl rfl rfl rfl
  rw [pinAll, Table.update, List.map_map]
  apply List.map_congr_left
  intro m _
  unfold Function.comp
  rw [Table.changeRow, inBatch_changeRow]
  have either : inBatch p (publicId :: rest) m = (inBatch p [publicId] m || inBatch p rest m) := by
    rw [Bool.eq_iff_iff, Bool.or_eq_true, inBatch_iff, inBatch_iff, inBatch_iff, List.mem_cons,
      List.mem_singleton, and_or_left]
  unfold Table.changeRow
  rw [either]
  cases inBatch p [publicId] m <;> cases inBatch p rest m <;> rfl

/-- A batch leaves the tables alone when no visible row is named. -/
theorem pinAll_absent (publicIds : List Uuid)
    (absent : ∀ m ∈ db.memories.rows, inBatch p publicIds m = false) :
    pinAll p now pinned publicIds db = db := by
  have rows : db.memories.rows.map (Table.changeRow (inBatch p publicIds)
      (Memory.withPinned now pinned)) = db.memories.rows := by
    rw [List.map_congr_left (g := id), List.map_id]
    intro m present
    rw [Table.changeRow, absent m present]
    rfl
  simp only [pinAll, Table.update, rows]

theorem pinAll_nil : pinAll p now pinned [] db = db := by
  apply pinAll_absent
  intro m _
  simp [inBatch]

/-- A batch of one changes the row that its id finds. -/
theorem pinAll_found (publicId : Uuid) (m : Memory)
    (found : MemoryRepo.getByPublicId p db publicId = some m) :
    pinAll p now pinned [publicId] db = MemoryRepo.setPinned now db m pinned := by
  obtain ⟨live, own⟩ := MemoryRepo.getByPublicId_some p db publicId m found
  obtain ⟨present, visible⟩ := (MemoryRepo.mem_liveRows p db m).mp live
  have rows : db.memories.rows.map (Table.changeRow (inBatch p [publicId])
      (Memory.withPinned now pinned)) = db.memories.rows.map
        (Table.changeRow (fun row => row.id == m.id) (Memory.withPinned now pinned)) := by
    apply List.map_congr_left
    intro row inside
    have chosen : inBatch p [publicId] row = (row.id == m.id) := by
      rw [Bool.eq_iff_iff, inBatch_iff, List.mem_singleton, beq_iff_eq]
      constructor
      · intro named
        rw [memory_eq_of_publicId db row m inside present (named.2.trans own.symm)]
      · intro same
        rw [memory_eq_of_id db row m inside present same]
        exact ⟨visible, own⟩
    rw [Table.changeRow, Table.changeRow, chosen]
  simp only [pinAll, Table.update, rows, MemoryRepo.setPinned, Database.updateMemory]

variable (pinned) in
/-- One pin is a batch of one. -/
theorem setPinned_eq_pinAll (ctx : CallContext) (s : Session) (publicId : Uuid)
    (writes : WritesAllOf p s.db [publicId]) :
    ∃ row, setPinned p ctx s publicId pinned =
      .ok (row, { s with db := pinAll p ctx.now pinned [publicId] s.db }) := by
  obtain ⟨scope, allowed⟩ := writes publicId (List.mem_singleton_self publicId)
  cases found : MemoryRepo.getByPublicId p s.db publicId with
  | none =>
      have absent : pinAll p ctx.now pinned [publicId] s.db = s.db := by
        apply pinAll_absent
        intro m present
        rw [Bool.eq_false_iff]
        intro named
        rw [inBatch_iff, List.mem_singleton] at named
        have live := (MemoryRepo.mem_liveRows p s.db m).mpr ⟨present, named.1⟩
        have some := MemoryRepo.getByPublicId_of_mem p s.db m live
        rw [named.2, found] at some
        exact absurd some (by simp)
      refine ⟨none, ?_⟩
      rw [absent, setPinned, scope, found]
      rfl
  | some m =>
      obtain ⟨live, own⟩ := MemoryRepo.getByPublicId_some p s.db publicId m found
      obtain ⟨present, visible⟩ := (MemoryRepo.mem_liveRows p s.db m).mp live
      refine ⟨some (m.withPinned ctx.now pinned), ?_⟩
      rw [pinAll_found publicId m found, setPinned, scope, found]
      simp only [bind, Except.bind, allowed m present visible own]
      rfl

theorem writesAllOf_of_setPinned (ctx : CallContext) (s : Session) (publicId : Uuid)
    (result : Option Memory × Session) (done : setPinned p ctx s publicId pinned = .ok result) :
    WritesAllOf p s.db [publicId] := by
  intro publicId' named
  rw [List.mem_singleton] at named
  subst named
  simp only [setPinned, bind_eq_ok] at done
  obtain ⟨_, scope, done⟩ := done
  refine ⟨scope, ?_⟩
  intro m present visible own
  have found := MemoryRepo.getByPublicId_of_mem p s.db m
    ((MemoryRepo.mem_liveRows p s.db m).mpr ⟨present, visible⟩)
  rw [own] at found
  rw [found] at done
  simp only [bind_eq_ok] at done
  obtain ⟨_, write, _⟩ := done
  exact write

/-- Pins leave the permissions alone. -/
theorem writesAllOf_pinAll (publicIds publicIds' : List Uuid) :
    WritesAllOf p (pinAll p now pinned publicIds db) publicIds' ↔ WritesAllOf p db publicIds' := by
  have same (m : Memory) :
      let row := Table.changeRow (inBatch p publicIds) (Memory.withPinned now pinned) m
      (Visible p row ↔ Visible p m) ∧ row.publicId = m.publicId ∧
        requireWrite p row = requireWrite p m := by
    unfold Table.changeRow
    split
    · exact ⟨Iff.rfl, rfl, rfl⟩
    · exact ⟨Iff.rfl, rfl, rfl⟩
  unfold WritesAllOf
  simp only [pinAll, Table.update, List.forall_mem_map, same]

theorem writesAllOf_cons (publicId : Uuid) (rest : List Uuid) :
    WritesAllOf p db (publicId :: rest) ↔ WritesAllOf p db [publicId] ∧ WritesAllOf p db rest := by
  unfold WritesAllOf
  rw [List.forall_mem_cons, List.forall_mem_singleton]

variable {ctx ctx' : CallContext} {action : Str} {s : Session}

/-- A bulk action that pins or unpins changes all its rows or fails. -/
theorem bulkApply_pins
    (pins : ∀ s publicId, applyOne env p ctx action s publicId =
      (setPinned p ctx s publicId pinned).map fun result => (result.1.isSome, result.2))
    (publicIds : List Uuid) :
    (WritesAllOf p s.db publicIds → ∃ count, bulkApply env p ctx action s publicIds =
      .ok (count, { s with db := pinAll p ctx.now pinned publicIds s.db })) ∧
    (∀ result, bulkApply env p ctx action s publicIds = .ok result → WritesAllOf p s.db publicIds) := by
  induction publicIds generalizing s with
  | nil =>
      refine ⟨fun _ => ⟨0, ?_⟩, fun _ _ _ named => absurd named List.not_mem_nil⟩
      rw [pinAll_nil]
      rfl
  | cons publicId rest ih =>
      constructor
      · intro writes
        obtain ⟨own, others⟩ := (writesAllOf_cons publicId rest).mp writes
        obtain ⟨row, one⟩ := setPinned_eq_pinAll pinned ctx s publicId own
        obtain ⟨count, later⟩ := (ih (s := { s with db := pinAll p ctx.now pinned [publicId] s.db })).1
          ((writesAllOf_pinAll [publicId] rest).mpr others)
        refine ⟨count + row.isSome.toNat, ?_⟩
        rw [bulkApply, pins, one, ← pinAll_cons publicId rest]
        simp only [Except.map, bind, Except.bind, later]
        rfl
      · intro result done
        simp only [bulkApply, bind_eq_ok, pins] at done
        obtain ⟨⟨changed, middle⟩, one, ⟨count, final⟩, later, _⟩ := done
        rw [mapFst_eq_ok _ Option.isSome] at one
        obtain ⟨row, one, _⟩ := one
        have own := writesAllOf_of_setPinned ctx s publicId _ one
        obtain ⟨row', one'⟩ := setPinned_eq_pinAll pinned ctx s publicId own
        have moved := (Prod.mk.inj (Except.ok.inj (one.symm.trans one'))).2
        have others := (ih (s := middle)).2 _ later
        rw [moved] at others
        exact (writesAllOf_cons publicId rest).mpr ⟨own, (writesAllOf_pinAll [publicId] rest).mp others⟩

variable (pinned) in
/-- Pinning a batch twice is pinning it once. -/
theorem pins_twice
    (pins : ∀ ctx s publicId, applyOne env p ctx action s publicId =
      (setPinned p ctx s publicId pinned).map fun result => (result.1.isSome, result.2))
    (db : Database) (publicIds : List Uuid) :
    let after (ctx : CallContext) (db : Database) :=
      dbAfter db (bulkApply env p ctx action ⟨db, {}⟩ publicIds)
    after ctx' (after ctx db) = after ctx db ∨ after ctx' (after ctx db) = after ctx' db := by
  intro after
  by_cases writes : WritesAllOf p db publicIds
  · have pinned (ctx : CallContext) (db : Database) (writes : WritesAllOf p db publicIds) :
        after ctx db = pinAll p ctx.now pinned publicIds db := by
      obtain ⟨count, done⟩ := (bulkApply_pins (s := ⟨db, {}⟩) (pins ctx) publicIds).1 writes
      show dbAfter db (bulkApply env p ctx action ⟨db, {}⟩ publicIds) = _
      rw [done]
      rfl
    right
    rw [pinned ctx db writes, pinned ctx' _ ((writesAllOf_pinAll publicIds publicIds).mpr writes),
      pinAll_pinAll, pinned ctx' db writes]
  · have refused : after ctx db = db := by
      show dbAfter db (bulkApply env p ctx action ⟨db, {}⟩ publicIds) = db
      cases done : bulkApply env p ctx action ⟨db, {}⟩ publicIds with
      | error e => rfl
      | ok result =>
          exact absurd ((bulkApply_pins (s := ⟨db, {}⟩) (pins ctx) publicIds).2 _ done) writes
    rw [refused]
    exact Or.inr rfl

/-- No visible memory has an id of the batch. -/
def NoneOf (p : Principal) (db : Database) (publicIds : List Uuid) : Prop :=
  ∀ publicId ∈ publicIds, MemoryRepo.getByPublicId p db publicId = none

theorem getByPublicId_none_of_deleted (publicId publicId' : Uuid) (changed : Bool) (s' : Session)
    (done : delete env p ctx s publicId = .ok (changed, s')) :
    MemoryRepo.getByPublicId p s'.db publicId = none ∧
      (MemoryRepo.getByPublicId p s.db publicId' = none →
        MemoryRepo.getByPublicId p s'.db publicId' = none) := by
  rcases delete_cases publicId changed done with ⟨absent, rfl⟩ | ⟨m, found, memories, _⟩
  · exact ⟨absent, id⟩
  · obtain ⟨live, own⟩ := MemoryRepo.getByPublicId_some p s.db publicId m found
    obtain ⟨present, _⟩ := (MemoryRepo.mem_liveRows p s.db m).mp live
    -- a row that is visible afterwards is another one, which was there before
    have before (row : Memory) (inside : row ∈ MemoryRepo.liveRows p s'.db) :
        row ∈ MemoryRepo.liveRows p s.db ∧ row ≠ m := by
      obtain ⟨stored, visible⟩ := (MemoryRepo.mem_liveRows p s'.db row).mp inside
      rw [memories, mem_updateMemory s.db m present] at stored
      rcases stored with ⟨stored, other⟩ | rfl
      · exact ⟨(MemoryRepo.mem_liveRows p s.db row).mpr ⟨stored, visible⟩, other⟩
      · exact absurd visible.2 (by simp [Memory.live, Memory.softDeleted])
    constructor
    · cases still : MemoryRepo.getByPublicId p s'.db publicId with
      | none => rfl
      | some row =>
          obtain ⟨inside, same⟩ := MemoryRepo.getByPublicId_some p s'.db publicId row still
          obtain ⟨there, other⟩ := before row inside
          have equal := memory_eq_of_publicId s.db row m ((MemoryRepo.mem_liveRows p s.db row).mp there).1
            present (same.trans own.symm)
          exact absurd equal other
    · intro absent
      cases still : MemoryRepo.getByPublicId p s'.db publicId' with
      | none => rfl
      | some row =>
          obtain ⟨inside, same⟩ := MemoryRepo.getByPublicId_some p s'.db publicId' row still
          have found := MemoryRepo.getByPublicId_of_mem p s.db row (before row inside).1
          rw [same, absent] at found
          exact absurd found (by simp)

/-- A batch that was deleted leaves no visible memory. -/
theorem noneOf_of_deletes
    (deletes : ∀ s publicId, applyOne env p ctx action s publicId = delete env p ctx s publicId)
    (publicIds publicIds' : List Uuid) (count : Nat) (s' : Session)
    (done : bulkApply env p ctx action s publicIds = .ok (count, s')) :
    NoneOf p s'.db publicIds ∧ (NoneOf p s.db publicIds' → NoneOf p s'.db publicIds') := by
  induction publicIds generalizing s count publicIds' with
  | nil =>
      obtain ⟨_, rfl⟩ := Prod.mk.inj (Except.ok.inj done)
      exact ⟨fun _ named => absurd named List.not_mem_nil, id⟩
  | cons publicId rest ih =>
      simp only [bulkApply, bind_eq_ok, deletes] at done
      obtain ⟨⟨changed, middle⟩, one, ⟨count', final⟩, others, same⟩ := done
      obtain ⟨_, rfl⟩ := Prod.mk.inj (Except.ok.inj same)
      have first := (getByPublicId_none_of_deleted publicId publicId changed middle one).1
      constructor
      · intro publicId' named
        rcases List.mem_cons.mp named with rfl | later
        · have kept := (ih [publicId'] count' others).2 fun _ own => by
            rw [List.mem_singleton.mp own]
            exact first
          exact kept publicId' (List.mem_singleton_self publicId')
        · exact (ih [] count' others).1 publicId' later
      · intro absent
        apply (ih publicIds' count' others).2
        intro publicId' named
        exact (getByPublicId_none_of_deleted publicId publicId' changed middle one).2
          (absent publicId' named)

/-- Where the batch has no visible memory, deleting it changes nothing. -/
theorem deletes_none
    (deletes : ∀ s publicId, applyOne env p ctx action s publicId = delete env p ctx s publicId)
    (publicIds : List Uuid) (absent : NoneOf p s.db publicIds) (count : Nat) (s' : Session)
    (done : bulkApply env p ctx action s publicIds = .ok (count, s')) : s' = s := by
  induction publicIds generalizing s count with
  | nil => exact (Prod.mk.inj (Except.ok.inj done)).2.symm
  | cons publicId rest ih =>
      simp only [bulkApply, bind_eq_ok, deletes] at done
      obtain ⟨⟨changed, middle⟩, one, ⟨count', final⟩, others, same⟩ := done
      obtain ⟨_, rfl⟩ := Prod.mk.inj (Except.ok.inj same)
      have here := absent publicId List.mem_cons_self
      rcases delete_cases publicId changed one with ⟨_, rfl⟩ | ⟨m, found, _⟩
      · exact ih (fun publicId' later => absent publicId' (List.mem_cons_of_mem _ later)) count' others
      · rw [here] at found
        exact absurd found (by simp)

/-- The second execution of a bulk action changes nothing, or hides what the first one has done. -/
theorem bulk_twice (ctx ctx' : CallContext) (action : Str) (db : Database) (publicIds : List Uuid) :
    let after (ctx : CallContext) (db : Database) :=
      dbAfter db (bulkApply env p ctx action ⟨db, {}⟩ publicIds)
    after ctx' (after ctx db) = after ctx db ∨ after ctx' (after ctx db) = after ctx' db := by
  by_cases pin : action = "pin".toList
  · exact pins_twice true (fun ctx s publicId => by rw [applyOne, if_pos pin]) db publicIds
  · by_cases unpin : action = "unpin".toList
    · exact pins_twice false
        (fun ctx s publicId => by rw [applyOne, if_neg pin, if_pos unpin]) db publicIds
    · intro after
      cases first : bulkApply env p ctx action ⟨db, {}⟩ publicIds with
      | error e =>
          have same : after ctx db = db := by simp only [after, first]; rfl
          rw [same]
          exact Or.inr rfl
      | ok result =>
          obtain ⟨count, s⟩ := result
          have same : after ctx db = s.db := by simp only [after, first]; rfl
          rw [same]
          left
          show dbAfter s.db (bulkApply env p ctx' action ⟨s.db, {}⟩ publicIds) = s.db
          cases second : bulkApply env p ctx' action ⟨s.db, {}⟩ publicIds with
          | error e => rfl
          | ok result' =>
              obtain ⟨count', s'⟩ := result'
              by_cases erase : action = "delete".toList
              · have deletes (ctx : CallContext) (s : Session) (publicId : Uuid) :
                    applyOne env p ctx action s publicId = delete env p ctx s publicId := by
                  rw [applyOne, if_neg pin, if_neg unpin, if_pos erase]
                have absent := (noneOf_of_deletes (deletes ctx) publicIds [] count s first).1
                have still :=
                  deletes_none (s := ⟨s.db, {}⟩) (deletes ctx') publicIds absent count' s' second
                rw [still]
                rfl
              · cases publicIds with
                | nil =>
                    obtain ⟨_, rfl⟩ := Prod.mk.inj (Except.ok.inj second)
                    rfl
                | cons publicId rest =>
                    simp only [bulkApply, bind_eq_ok, applyOne, if_neg pin, if_neg unpin,
                      if_neg erase] at second
                    obtain ⟨_, impossible, _⟩ := second
                    exact absurd impossible (by simp)

/-- The service lets a forced write through, and the columns accept its row. -/
structure StoresForced (env : Environment) (p : Principal) (ctx : CallContext) (db : Database)
    (payload : CreateMemoryInput) (embed : Bool) : Prop where
  scope : requireScope p "write:memory" = .ok ()
  create : requireCreate p payload = .ok ()
  room : countOf p ⟨db, {}⟩ < capOf p ⟨db, {}⟩
  fresh : ∀ other ∈ db.memories.rows, other.publicId ≠ ctx.newPublicId
  row : ∃ embedding, inlineEmbedding env payload embed = .ok embedding ∧
    let config := (projectConfig p db {} payload.scope).1
    (newRow env p ctx payload (screen env payload)
      (reviewDecision env payload (screen env payload) config.1) config.2 embedding).storable = true

theorem enforced_iff (db : Database) (scope : ScopeFilter) :
    (∃ service, enforceMemoryQuota p db (projectConfig p db {} scope).2 = .ok service) ↔
      countOf p ⟨db, {}⟩ < capOf p ⟨db, {}⟩ := by
  obtain ⟨plan, count⟩ := WriteSessions.projectConfig_counts p db {} scope
  rw [enforceMemoryQuota_eq]
  simp only [capOf, countOf, orgPlan, plan, count]
  split
  · rename_i full
    simp only [reduceCtorEq, exists_false, false_iff]
    omega
  · rename_i room
    simp only [Except.ok.injEq, exists_eq', true_iff]
    omega

theorem write_forced_iff (db : Database) (payload : CreateMemoryInput) (embed : Bool) :
    (∃ result, write env p ctx ⟨db, {}⟩ payload embed true = .ok result) ↔
      StoresForced env p ctx db payload embed := by
  constructor
  · intro ⟨result, done⟩
    simp only [write, bind_eq_ok, duplicateOf, if_true, store, flush_eq_ok] at done
    obtain ⟨_, scope, _, create, service, enforced, embedding, embedded, row, inserted, _⟩ := done
    obtain ⟨fresh, storable⟩ := (MemoryTool.insertMemory_iff db _ ctx.idGap).mp ⟨row, inserted⟩
    exact ⟨scope, create, (enforced_iff db payload.scope).mp ⟨service, enforced⟩, fresh,
      embedding, embedded, storable⟩
  · intro stores
    obtain ⟨service, enforced⟩ := (enforced_iff db payload.scope).mpr stores.room
    obtain ⟨embedding, embedded, storable⟩ := stores.row
    obtain ⟨row, inserted⟩ := (MemoryTool.insertMemory_iff db _ ctx.idGap).mpr ⟨stores.fresh, storable⟩
    simp only [write, stores.scope, stores.create, duplicateOf, if_true, store, enforced, embedded,
      inserted, flush, bind, Except.bind]
    exact ⟨_, rfl⟩

/-- A forced write adds one row. -/
theorem length_of_forced (db : Database) (payload : CreateMemoryInput) (embed : Bool)
    (written : MemoryWrite) (s' : Session)
    (done : write env p ctx ⟨db, {}⟩ payload embed true = .ok (written, s')) :
    s'.db.memories.rows.length = db.memories.rows.length + 1 := by
  rcases write_cases payload embed true written done with ⟨existing, folds⟩ | ⟨_, _, _, _, stores⟩
  · exact absurd folds.duplicate (by simp [duplicateOf])
  · obtain ⟨_, _, inserted⟩ := stores.inserted
    rw [(insertMemory_rows _ _ _ _ _ inserted).1, List.length_append, List.length_singleton]

end MemoryService
end Kortex
