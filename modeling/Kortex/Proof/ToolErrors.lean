import Kortex.Proof.HeldWrites
import Kortex.Proof.ImportMemories

/-
This file proves when a command of the tool raises, and that a command with an error changes nothing.
-/

namespace Kortex.MemoryTool

open MemoryService ExportService

/-- The principal may write everything. -/
structure WritesAll (p : Principal) : Prop where
  scope : p.hasKeyScope "write:memory" = true
  write : ∀ resource, AccessControl.canWrite p resource = true

/-- The principal may write everything, and the plan of its org has room. -/
structure FullAccess (b : Backend) (s : Session) : Prop extends WritesAll b.principal where
  room : countOf b.principal s < capOf b.principal s

/-- The command has a result, and an error leaves the session as it was. -/
def TotalAndAtomic (b : Backend) (ctx : CallContext) (s : Session) (command : JsonDict) : Prop :=
  ∃ result s', execute b ctx s command = .ok (result, s') ∧ (result.isError = true → s' = s)

/-- The audit log takes no entry about a memory: the org has no id, or the address is none. -/
def AuditRefuses (b : Backend) (ctx : CallContext) : Prop :=
  b.principal.orgId = 0 ∨
    ∃ ip, (Audit.setOrigin ctx.originIp ctx.originAgent).1 = some ip ∧ b.env.inet ip = none

/-- This is the row that a write stores when it finds no duplicate. -/
def freshRow (env : Environment) (p : Principal) (ctx : CallContext) (s : Session)
    (payload : CreateMemoryInput) : Memory :=
  let config := (projectConfig p s.db s.service payload.scope).1
  newRow env p ctx payload (screen env payload)
    (reviewDecision env payload (screen env payload) config.1) config.2 none

/-- The columns refuse what a write makes of the payload. -/
def WriteRefused (env : Environment) (p : Principal) (ctx : CallContext) (s : Session)
    (payload : CreateMemoryInput) : Prop :=
  match duplicateOf env p s.db payload.scope (screen env payload) false with
  | some existing => (existing.duplicated ctx.now payload.metadata).storable = false
  | none => (∃ other ∈ s.db.memories.rows, other.publicId = ctx.newPublicId) ∨
      (freshRow env p ctx s payload).storable = false

/-- The database refuses the change. -/
def ChangeRefused (b : Backend) (ctx : CallContext) (s : Session) : Plan → Prop
  | .reply _ => False
  | .update m patch _ => (m.patched ctx.now patch).storable = false
  | .write path text => WriteRefused b.env b.principal ctx s (filePayload b path text)
  | .delete _ _ => AuditRefuses b ctx

/-- The change goes through. -/
def CarriedOut (b : Backend) (ctx : CallContext) (s : Session) (plan : Plan) : Prop :=
  ∃ result s', carryOut b ctx s plan = .ok (result, s') ∧ result.isError = false

/-- The command raises: its handler is blocked, or the database refuses the change it asks for. -/
inductive Raises (b : Backend) (ctx : CallContext) (s : Session) (command : JsonDict) : Prop
  | blocked (blocked : Blocked b s.db command)
  | refused (plan : Plan) (asksFor : AsksFor b s.db command plan)
      (refused : ChangeRefused b ctx s plan)

variable {b : Backend} {ctx : CallContext} {s s' : Session} {command : JsonDict}

/-- A blocked command raises. -/
theorem execute_of_blocked (blocked : Blocked b s.db command) :
    ∃ e, execute b ctx s command = .error e := by
  cases blocked with
  | lookup path looks null =>
      have file : MemoryTool.file b s.db path = .error (.service .databaseError) :=
        file_of_refused path null
      have required (missing : Str) : requireFile b s.db path missing = .error (.service .databaseError) :=
        requireFile_of_refused path missing null
      cases looks with
      | edits name edits known normal =>
          simp only [List.mem_cons, List.not_mem_nil, or_false] at edits
          rcases edits with rfl | rfl | rfl
          · exact ⟨.databaseError, by simp only [execute, known, handler, view, normal, file, bind,
              Except.bind]⟩
          · exact ⟨.databaseError, by simp only [execute, known, handler, strReplace, normal, required,
              bind, Except.bind]⟩
          · exact ⟨.databaseError, by simp only [execute, known, handler, insert, normal, required, bind,
              Except.bind]⟩
      | creates text creates below =>
          exact ⟨.databaseError, by simp only [execute, creates.known, handler, create, creates.normal,
            creates.given, requireFilePath, if_neg below, file, bind, Except.bind]⟩
      | deletes deletes =>
          exact ⟨.databaseError, by simp only [execute, deletes.known, handler, delete, deletes.normal,
            requireFilePath, if_neg deletes.below, file, bind, Except.bind]⟩
      | movesFrom newPath moves =>
          exact ⟨.databaseError, by simp only [execute, moves.known, handler, rename, moves.old, moves.new,
            requireFilePath, if_neg moves.below, file, bind, Except.bind]⟩
      | movesTo oldPath m moves found =>
          exact ⟨.databaseError, by simp only [execute, moves.known, handler, rename, moves.old, moves.new,
            requireFilePath, if_neg moves.below, found, file, bind, Except.bind]⟩
  | infinite path m first last asks =>
      obtain ⟨e, sliced⟩ := (slice_error_iff b.env.unicode m.body first last).mpr asks.infinite
      have text : viewFile b path m (some (.arr [first, last])) =
          .error (.service (.valueError "cannot convert float infinity to integer")) := by
        rw [viewFile, if_neg asks.notHeld, viewText_eq, if_neg (Nat.not_lt.mpr asks.few), window, sliced]
      exact ⟨.valueError "cannot convert float infinity to integer", by
        simp only [execute, asks.views.known, handler, view, asks.views.normal, asks.found, asks.range,
          text, bind, Except.bind]⟩

/-! The changes of a principal with full access. -/

variable (access : WritesAll b.principal)

include access in
theorem requireScope_of_access : requireScope b.principal "write:memory" = .ok () := by
  rw [requireScope, if_pos access.scope]

include access in
theorem requireWrite_of_access (m : Memory) : requireWrite b.principal m = .ok () := by
  simp only [requireWrite, access.write, if_true]

include access in
/-- An edit of a file raises exactly when the columns refuse it. -/
theorem update_of_access (path : Str) (m : Memory) (found : file b s.db path = .ok (some m))
    (patch : MemoryPatch) (keeps : patch.sensitivity = none) :
    MemoryService.update b.principal ctx s m.publicId patch =
      if (m.patched ctx.now patch).storable then .ok (some (m.patched ctx.now patch),
        { s with db := s.db.updateMemory m.id (Memory.patched ctx.now patch)
                    (Memory.patched_ident ctx.now patch) })
      else .error .databaseError := by
  simp only [MemoryService.update, requireScope_of_access access, getByPublicId_of_file found,
    requireWrite_of_access access, keeps, requireSensitivity, MemoryRepo.updateFields, bind, Except.bind]
  cases (m.patched ctx.now patch).storable <;> rfl

theorem insertMemory_iff (db : Database) (m : Memory) (gap : Nat) :
    (∃ result, db.insertMemory m gap = some result) ↔
      (∀ other ∈ db.memories.rows, other.publicId ≠ m.publicId) ∧ m.storable = true := by
  have storable : ({ m with id := lastMemoryId db + 1 + gap } : Memory).storable = m.storable := rfl
  simp only [Database.insertMemory, storable]
  by_cases fresh : ∀ other ∈ db.memories.rows, other.publicId ≠ m.publicId
  · rw [dif_pos fresh]
    cases m.storable with
    | true => simpa using fresh
    | false => simp
  · rw [dif_neg fresh]
    simp [fresh]

include access in
/-- A write raises exactly when the columns refuse it. -/
theorem write_of_access (room : countOf b.principal s < capOf b.principal s)
    (payload : CreateMemoryInput) :
    (∃ written s', MemoryService.write b.env b.principal ctx s payload false false = .ok (written, s')) ↔
      ¬ WriteRefused b.env b.principal ctx s payload := by
  have create : requireCreate b.principal payload = .ok () := by
    simp only [requireCreate, access.write, if_true]
  obtain ⟨counted, granted⟩ : ∃ counted, enforceMemoryQuota b.principal s.db
      (projectConfig b.principal s.db s.service payload.scope).2 = .ok counted := by
    obtain ⟨plan, count⟩ := WriteSessions.projectConfig_counts b.principal s.db s.service payload.scope
    rw [enforceMemoryQuota_eq, if_neg]
    · exact ⟨_, rfl⟩
    · simp only [capOf, countOf, orgPlan, plan, count] at room ⊢
      omega
  simp only [MemoryService.write, requireScope_of_access access, create, WriteRefused, bind, Except.bind]
  cases duplicateOf b.env b.principal s.db payload.scope (screen b.env payload) false with
  | some existing =>
      simp only [MemoryRepo.recordDuplicate]
      cases (existing.duplicated ctx.now payload.metadata).storable with
      | true => simp [flush, pure, Except.pure]
      | false => simp [flush]
  | none =>
      have same : ¬ ((∃ other ∈ s.db.memories.rows, other.publicId = ctx.newPublicId) ∨
          (freshRow b.env b.principal ctx s payload).storable = false) ↔
            ∃ result, s.db.insertMemory (freshRow b.env b.principal ctx s payload) ctx.idGap =
              some result := by
        rw [insertMemory_iff, not_or, not_exists, Bool.not_eq_false]
        simp only [not_and]
        rfl
      rw [same]
      simp only [store, granted, inlineEmbedding, bind, Except.bind, Bool.false_eq_true, if_false,
        freshRow]
      cases s.db.insertMemory _ ctx.idGap with
      | none => simp [flush]
      | some result => simp [flush, pure, Except.pure]

/-- An audit entry about a memory is refused for the principal or its address, not for the memory. -/
theorem auditMemory_refused (db : Database) (action : Str) (m : Memory) (metadata : JsonDict) :
    (∃ e, auditMemory b.env b.principal ctx db action m metadata = .error e) ↔ AuditRefuses b ctx := by
  simp only [auditMemory, Audit.append, Audit.effectiveOrg, AuditRefuses, Option.none_or]
  cases b.principal.orgId with
  | zero => simp
  | succ n =>
      simp only [Audit.entryFields, Audit.orElse, Nat.succ_ne_zero, false_or]
      cases (Audit.setOrigin ctx.originIp ctx.originAgent).1 with
      | none => simp
      | some ip =>
          cases known : b.env.inet ip with
          | none => simp [known]
          | some canonical => simp [known]

include access in
theorem delete_of_access (m : Memory) (accepts : ¬ AuditRefuses b ctx) :
    ∃ result s', MemoryService.delete b.env b.principal ctx s m.publicId = .ok (result, s') := by
  simp only [MemoryService.delete, requireScope_of_access access, bind, Except.bind]
  cases MemoryRepo.getByPublicId b.principal s.db m.publicId with
  | none => exact ⟨false, s, rfl⟩
  | some found =>
      simp only [requireWrite_of_access access]
      cases audited : auditMemory b.env b.principal ctx (MemoryRepo.softDelete ctx.now s.db found)
          "memory.deleted".toList found
          [("public_id".toList, .str found.publicId.str),
            ("title".toList, .str (found.title.take 200))] with
      | ok db => exact ⟨_, _, rfl⟩
      | error e => exact absurd ((auditMemory_refused _ _ _ _).mp ⟨e, audited⟩) accepts

include access in
/-- A deletion of files goes through when the audit log takes its entries. -/
theorem deleteAll_of_access (found : List Memory) (accepts : ¬ AuditRefuses b ctx) :
    ∃ s', deleteAll b ctx s found = .ok s' := by
  induction found generalizing s with
  | nil => exact ⟨s, rfl⟩
  | cons m rest ih =>
      obtain ⟨result, next, deleted⟩ := delete_of_access (s := s) access m accepts
      obtain ⟨s', others⟩ := ih (s := next)
      refine ⟨s', ?_⟩
      simp only [deleteAll, deleted, bind, Except.bind]
      exact others

include access in
theorem deleteAll_refused (m : Memory) (rest : List Memory)
    (found : MemoryRepo.getByPublicId b.principal s.db m.publicId = some m)
    (refuses : AuditRefuses b ctx) : ∃ e, deleteAll b ctx s (m :: rest) = .error e := by
  obtain ⟨e, audited⟩ := (auditMemory_refused (MemoryRepo.softDelete ctx.now s.db m) "memory.deleted" m
    [("public_id".toList, .str m.publicId.str), ("title".toList, .str (m.title.take 200))]).mpr refuses
  refine ⟨e, ?_⟩
  simp only [deleteAll, MemoryService.delete, requireScope_of_access access, found,
    requireWrite_of_access access, audited, bind, Except.bind]

/-- The files under a directory are live. -/
theorem getByPublicId_of_children (path : Str) (m : Memory) (inside : m ∈ children b s.db path) :
    MemoryRepo.getByPublicId b.principal s.db m.publicId = some m := by
  rw [children, List.mem_filter] at inside
  have member := List.mem_of_mem_take inside.1
  rw [List.mem_filter] at member
  exact MemoryRepo.getByPublicId_of_mem _ _ m member.1

include access in
theorem carryOut_update_iff (path : Str) (m : Memory) (found : file b s.db path = .ok (some m))
    (patch : MemoryPatch) (keeps : patch.sensitivity = none) (content : Str) :
    CarriedOut b ctx s (.update m patch content) ↔ ¬ ChangeRefused b ctx s (.update m patch content) := by
  rw [CarriedOut, carryOut, update_of_access access path m found patch keeps, ChangeRefused]
  cases (m.patched ctx.now patch).storable with
  | true => simp [bind, Except.bind, pure, Except.pure]
  | false => simp [bind, Except.bind]

include access in
theorem carryOut_delete_iff (found : List Memory) (some : found ≠ [])
    (live : ∀ m ∈ found, MemoryRepo.getByPublicId b.principal s.db m.publicId = Option.some m)
    (content : Str) :
    CarriedOut b ctx s (.delete found content) ↔ ¬ ChangeRefused b ctx s (.delete found content) := by
  rw [CarriedOut, carryOut, ChangeRefused]
  constructor
  · rintro ⟨result, s', done, _⟩ refuses
    obtain ⟨m, rest, rfl⟩ := List.exists_cons_of_ne_nil some
    obtain ⟨e, refused⟩ := deleteAll_refused access m rest (live m List.mem_cons_self) refuses
    rw [refused] at done
    exact absurd done (by simp [bind, Except.bind])
  · intro accepts
    obtain ⟨s', done⟩ := deleteAll_of_access (s := s) access found accepts
    exact ⟨_, s', by rw [done]; rfl, rfl⟩

/-- A change never ends with an error. -/
theorem isError_of_asksFor (plan : Plan) (asksFor : AsksFor b s.db command plan) (result : ToolResult)
    (done : carryOut b ctx s plan = .ok (result, s')) : result.isError = false := by
  cases asksFor with
  | overwrites | replaces | inserts | moves => exact (carryOut_update _ _ _ result done).1 ▸ rfl
  | creates =>
      obtain ⟨_, _, rfl⟩ := carryOut_write _ _ result done
      rfl
  | deletes | deletesAll =>
      simp only [carryOut, bind_eq_ok] at done
      obtain ⟨_, _, same⟩ := done
      rw [← (Prod.mk.inj (Except.ok.inj same)).1]

/-- A change that the command asks for goes through exactly when the database does not refuse it. -/
theorem carryOut_iff (access : FullAccess b s) (plan : Plan) (asksFor : AsksFor b s.db command plan) :
    CarriedOut b ctx s plan ↔ ¬ ChangeRefused b ctx s plan := by
  have writes := access.toWritesAll
  cases asksFor with
  | overwrites creates below found => exact carryOut_update_iff writes _ _ found _ rfl _
  | replaces asks one => exact carryOut_update_iff writes _ _ asks.found _ rfl _
  | inserts asks => exact carryOut_update_iff writes _ _ asks.found _ rfl _
  | moves moves found free => exact carryOut_update_iff writes _ _ found _ rfl _
  | creates creates below free =>
      rename_i path text
      rw [ChangeRefused, ← write_of_access writes access.room, CarriedOut, carryOut]
      cases MemoryService.write b.env b.principal ctx s (filePayload b path text) false false with
      | error e => simp [bind, Except.bind]
      | ok result =>
          obtain ⟨written, s'⟩ := result
          simp [bind, Except.bind, pure, Except.pure]
  | deletes deletes found =>
      refine carryOut_delete_iff writes _ (by simp) (fun m inside => ?_) _
      rw [List.mem_singleton.mp inside]
      exact getByPublicId_of_file found
  | deletesAll deletes free some =>
      exact carryOut_delete_iff writes _ some (fun m inside => getByPublicId_of_children _ m inside) _

theorem fullAccess_oneFile (text : Str) (status : ReviewStatus) :
    FullAccess sampleBackend (oneFile text status) where
  scope := rfl
  write _ := rfl
  room := by
    change ((1 : Nat) : Int) < 25000
    decide

def infiniteView : JsonDict :=
  [("command", .str "view"), ("path", .str "/memories/a"),
    ("view_range", .arr [.float (.inf false), .int 1])]

end Kortex.MemoryTool
