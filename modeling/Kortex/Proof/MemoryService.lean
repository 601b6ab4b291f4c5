import Kortex.Model.MemoryService
import Kortex.Proof.MemoryRepo

/-
This file proves what a successful call of the service does to the memories.
-/

namespace Kortex

theorem bind_eq_ok {E A B : Type} (x : Except E A) (f : A → Except E B) (b : B) :
    (x >>= f) = .ok b ↔ ∃ a, x = .ok a ∧ f a = .ok b := by
  cases x with
  | error e => simp [bind, Except.bind]
  | ok a => simp [bind, Except.bind]

theorem throw_ne_ok {E A : Type} (e : E) (a : A) : (throw e : Except E A) ≠ .ok a := by
  simp [throw, throwThe, MonadExceptOf.throw]

/-- A call that wraps its result succeeds with the state of the call. -/
theorem mapFst_eq_ok {E A B S : Type} (x : Except E (A × S)) (f : A → B) (b : B) (s : S) :
    (x.map fun result => (f result.1, result.2)) = .ok (b, s) ↔ ∃ a, x = .ok (a, s) ∧ f a = b := by
  cases x with
  | error e => simp [Except.map]
  | ok result =>
      obtain ⟨a, s'⟩ := result
      simp only [Except.map, Except.ok.injEq, Prod.mk.injEq]
      constructor
      · rintro ⟨wrapped, rfl⟩
        exact ⟨a, ⟨rfl, rfl⟩, wrapped⟩
      · rintro ⟨_, ⟨rfl, rfl⟩, wrapped⟩
        exact ⟨wrapped, rfl⟩

namespace MemoryService

variable {env : Environment} {p : Principal} {ctx : CallContext} {s s' : Session}

theorem flush_eq_ok {A : Type} (result : Option A) (value : A) :
    flush result = .ok value ↔ result = some value := by
  cases result <;> simp [flush]

theorem auditMemory_memories (db db' : Database) (action : Str) (m : Memory) (metadata : JsonDict)
    (done : auditMemory env p ctx db action m metadata = .ok db') : db'.memories = db.memories := by
  simp only [auditMemory] at done
  split at done <;> simp only [Except.ok.injEq, reduceCtorEq] at done
  rw [← done]

theorem auditMemory_projects (db db' : Database) (action : Str) (m : Memory) (metadata : JsonDict)
    (done : auditMemory env p ctx db action m metadata = .ok db') : db'.projects = db.projects := by
  simp only [auditMemory] at done
  split at done <;> simp only [Except.ok.injEq, reduceCtorEq] at done
  rw [← done]

/-- The write stores a new row. -/
structure Stores (env : Environment) (p : Principal) (ctx : CallContext) (s s' : Session)
    (payload : CreateMemoryInput) (embed : Bool) (screened : Screened) (review : ReviewDecision)
    (tsConfig : Str) (result : MemoryWrite) : Prop where
  inserted : ∃ embedding, inlineEmbedding env payload embed = .ok embedding ∧ s.db.insertMemory
    (newRow env p ctx payload screened review tsConfig embedding) ctx.idGap =
      some (result.memory, s'.db)
  deduped : result.deduped = false
  pendingReview : result.pendingReview = review.held
  redacted : result.redacted = screened.redacted

theorem store_cases (db : Database) (service : ServiceCache) (payload : CreateMemoryInput)
    (embed : Bool) (screened : Screened) (review : ReviewDecision) (tsConfig : Str)
    (result : MemoryWrite)
    (done : store env p ctx db service payload embed screened review tsConfig = .ok (result, s')) :
    Stores env p ctx ⟨db, service⟩ s' payload embed screened review tsConfig result := by
  simp only [store, bind_eq_ok, flush_eq_ok] at done
  obtain ⟨service', _, embedding, embedded, ⟨created, db'⟩, inserted, same⟩ := done
  obtain ⟨rfl, rfl⟩ := Prod.mk.inj (Except.ok.inj same)
  exact ⟨⟨embedding, embedded, inserted⟩, rfl, rfl, rfl⟩

/-- The write folds into a memory that has the fingerprint already. -/
structure Folds (env : Environment) (p : Principal) (ctx : CallContext) (s s' : Session)
    (payload : CreateMemoryInput) (force : Bool) (result : MemoryWrite) (existing : Memory) :
    Prop where
  duplicate : duplicateOf env p s.db payload.scope (screen env payload) force = some existing
  memory : result.memory = existing.duplicated ctx.now payload.metadata
  updated : s'.db = s.db.updateMemory existing.id (Memory.duplicated ctx.now payload.metadata)
    (Memory.duplicated_ident ctx.now payload.metadata)
  deduped : result.deduped = true
  pendingReview : result.pendingReview = false

/-- A successful write either folds into a duplicate, or stores the screened text. -/
theorem write_cases (payload : CreateMemoryInput) (embed force : Bool) (result : MemoryWrite)
    (done : write env p ctx s payload embed force = .ok (result, s')) :
    (∃ existing, Folds env p ctx s s' payload force result existing) ∨
      (duplicateOf env p s.db payload.scope (screen env payload) force = none ∧
        ∃ mode tsConfig, (projectConfig p s.db s.service payload.scope).1 = (mode, tsConfig) ∧
          Stores env p ctx s s' payload embed (screen env payload)
            (reviewDecision env payload (screen env payload) mode) tsConfig result) := by
  simp only [write, bind_eq_ok] at done
  obtain ⟨_, _, _, _, done⟩ := done
  split at done
  · rename_i existing duplicate
    simp only [bind_eq_ok, flush_eq_ok] at done
    obtain ⟨⟨memory, db'⟩, recorded, same⟩ := done
    obtain ⟨rfl, rfl⟩ := Prod.mk.inj (Except.ok.inj same)
    simp only [MemoryRepo.recordDuplicate] at recorded
    split at recorded
    · obtain ⟨rfl, rfl⟩ := Prod.mk.inj (Option.some.inj recorded)
      exact Or.inl ⟨existing, duplicate, rfl, rfl, rfl, rfl⟩
    · exact absurd recorded (by simp)
  · rename_i fresh
    have stores := store_cases _ _ _ _ _ _ _ _ done
    exact Or.inr ⟨fresh, _, _, rfl, stores.inserted, stores.deduped, stores.pendingReview,
      stores.redacted⟩

/-- A write that folds goes through when the merged row can be stored. -/
structure FoldsInto (env : Environment) (p : Principal) (ctx : CallContext) (db : Database)
    (payload : CreateMemoryInput) (force : Bool) (m : Memory) : Prop where
  scope : requireScope p "write:memory" = .ok ()
  create : requireCreate p payload = .ok ()
  duplicate : duplicateOf env p db payload.scope (screen env payload) force = some m
  storable : (m.duplicated ctx.now payload.metadata).storable = true

/-- This is what a write returns that folds. -/
def folded (ctx : CallContext) (payload : CreateMemoryInput) (m : Memory) : MemoryWrite where
  memory := m.duplicated ctx.now payload.metadata
  deduped := true

theorem write_of_foldsInto (payload : CreateMemoryInput) (embed force : Bool) (m : Memory)
    (folds : FoldsInto env p ctx s.db payload force m) :
    ∃ service, write env p ctx s payload embed force =
      .ok (folded ctx payload m, ⟨s.db.updateMemory m.id (Memory.duplicated ctx.now payload.metadata)
        (Memory.duplicated_ident ctx.now payload.metadata), service⟩) := by
  refine ⟨(projectConfig p s.db s.service payload.scope).2, ?_⟩
  simp only [write, folds.scope, folds.create, folds.duplicate, bind, Except.bind,
    MemoryRepo.recordDuplicate, folds.storable, if_true, flush]
  rfl

theorem foldsInto_of_folds (payload : CreateMemoryInput) (embed force : Bool) (result : MemoryWrite)
    (m : Memory) (done : write env p ctx s payload embed force = .ok (result, s'))
    (folds : Folds env p ctx s s' payload force result m) :
    FoldsInto env p ctx s.db payload force m := by
  simp only [write, bind_eq_ok, folds.duplicate, flush_eq_ok] at done
  obtain ⟨_, scope, _, create, ⟨memory, db'⟩, recorded, _⟩ := done
  refine ⟨scope, create, folds.duplicate, ?_⟩
  simp only [MemoryRepo.recordDuplicate] at recorded
  split at recorded
  · assumption
  · exact absurd recorded (by simp)

/-- The service lets the principal make the edit and the columns accept the edited row. -/
structure Edits (p : Principal) (now : Instant) (db : Database) (publicId : Uuid)
    (patch : MemoryPatch) (m : Memory) : Prop where
  scope : requireScope p "write:memory" = .ok ()
  found : MemoryRepo.getByPublicId p db publicId = some m
  write : requireWrite p m = .ok ()
  sensitivity : requireSensitivity p m patch.sensitivity = .ok ()
  storable : (m.patched now patch).storable = true

/-- A successful update either finds no memory, or edits the one it finds. -/
theorem update_cases (publicId : Uuid) (patch : MemoryPatch) (result : Option Memory)
    (done : update p ctx s publicId patch = .ok (result, s')) :
    (MemoryRepo.getByPublicId p s.db publicId = none ∧ s' = s) ∨
      ∃ m, Edits p ctx.now s.db publicId patch m ∧ s'.db = s.db.updateMemory m.id
        (Memory.patched ctx.now patch) (Memory.patched_ident ctx.now patch) := by
  simp only [update, bind_eq_ok] at done
  obtain ⟨_, scope, done⟩ := done
  split at done
  · rename_i absent
    exact Or.inl ⟨absent, (Prod.mk.inj (Except.ok.inj done)).2.symm⟩
  · rename_i m found
    simp only [bind_eq_ok, flush_eq_ok] at done
    obtain ⟨_, write, _, sensitivity, ⟨row, db'⟩, updated, same⟩ := done
    obtain ⟨_, rfl⟩ := Prod.mk.inj (Except.ok.inj same)
    simp only [MemoryRepo.updateFields] at updated
    split at updated
    · rename_i storable
      obtain ⟨_, rfl⟩ := Prod.mk.inj (Option.some.inj updated)
      exact Or.inr ⟨m, ⟨scope, found, write, sensitivity, storable⟩, rfl⟩
    · exact absurd updated (by simp)

/-- An edit that the service lets through succeeds. -/
theorem update_of_edits (publicId : Uuid) (patch : MemoryPatch) (m : Memory)
    (edits : Edits p ctx.now s.db publicId patch m) :
    update p ctx s publicId patch = .ok (some (m.patched ctx.now patch),
      { s with
        db := s.db.updateMemory m.id (Memory.patched ctx.now patch)
          (Memory.patched_ident ctx.now patch) }) := by
  simp only [update, edits.scope, edits.found, edits.write, edits.sensitivity, bind, Except.bind,
    MemoryRepo.updateFields, edits.storable, if_true, flush]
  rfl

theorem delete_cases (publicId : Uuid) (result : Bool)
    (done : delete env p ctx s publicId = .ok (result, s')) :
    (MemoryRepo.getByPublicId p s.db publicId = none ∧ s' = s) ∨
      ∃ m, MemoryRepo.getByPublicId p s.db publicId = some m ∧
        s'.db.memories = (s.db.updateMemory m.id (Memory.softDeleted ctx.now)
          (Memory.softDeleted_ident ctx.now)).memories ∧ s'.db.projects = s.db.projects := by
  simp only [delete, bind_eq_ok] at done
  obtain ⟨_, _, done⟩ := done
  split at done
  · rename_i absent
    exact Or.inl ⟨absent, (Prod.mk.inj (Except.ok.inj done)).2.symm⟩
  · rename_i m found
    simp only [bind_eq_ok] at done
    obtain ⟨_, _, db', audited, same⟩ := done
    obtain ⟨_, rfl⟩ := Prod.mk.inj (Except.ok.inj same)
    exact Or.inr ⟨m, found, auditMemory_memories _ _ _ _ _ audited,
      (auditMemory_projects _ _ _ _ _ audited).trans rfl⟩

theorem setPinned_cases (publicId : Uuid) (pinned : Bool) (result : Option Memory)
    (done : setPinned p ctx s publicId pinned = .ok (result, s')) :
    s' = s ∨ ∃ m, MemoryRepo.getByPublicId p s.db publicId = some m ∧
      s'.db = s.db.updateMemory m.id (Memory.withPinned ctx.now pinned)
        (Memory.withPinned_ident ctx.now pinned) := by
  simp only [setPinned, bind_eq_ok] at done
  obtain ⟨_, _, done⟩ := done
  split at done
  · exact Or.inl (Prod.mk.inj (Except.ok.inj done)).2.symm
  · rename_i m found
    simp only [bind_eq_ok] at done
    obtain ⟨_, _, same⟩ := done
    obtain ⟨_, rfl⟩ := Prod.mk.inj (Except.ok.inj same)
    exact Or.inr ⟨m, found, rfl⟩

theorem review_cases (publicId : Uuid) (approve : Bool) (result : Option Memory)
    (done : review env p ctx s publicId approve = .ok (result, s')) :
    s' = s ∨ ∃ m status, MemoryRepo.getByPublicId p s.db publicId = some m ∧
      status = (if approve then .approved else .rejected) ∧
        s'.db.memories = (s.db.updateMemory m.id (Memory.withReview ctx.now status p.userId)
          (Memory.withReview_ident ctx.now status p.userId)).memories ∧
        s'.db.projects = s.db.projects := by
  simp only [review, bind_eq_ok] at done
  obtain ⟨_, _, done⟩ := done
  split at done
  · exact Or.inl (Prod.mk.inj (Except.ok.inj done)).2.symm
  · rename_i m found
    simp only [bind_eq_ok] at done
    obtain ⟨_, _, done⟩ := done
    split at done
    · exact Or.inl (Prod.mk.inj (Except.ok.inj done)).2.symm
    · simp only [bind_eq_ok] at done
      obtain ⟨db', audited, same⟩ := done
      obtain ⟨_, rfl⟩ := Prod.mk.inj (Except.ok.inj same)
      exact Or.inr ⟨m, _, found, rfl, auditMemory_memories _ _ _ _ _ audited,
        (auditMemory_projects _ _ _ _ _ audited).trans rfl⟩

@[simp] theorem renew_db (s : Session) (newService : Bool) : (Session.renew s newService).db = s.db := by
  cases newService <;> rfl

theorem visible_of_getByPublicId (p : Principal) (db : Database) (publicId : Uuid) (m : Memory)
    (found : MemoryRepo.getByPublicId p db publicId = some m) :
    m ∈ db.memories.rows ∧ m.live = true := by
  have inside := (MemoryRepo.getByPublicId_some p db publicId m found).1
  rw [MemoryRepo.mem_liveRows] at inside
  exact ⟨inside.1, inside.2.2⟩

/-- A duplicate is a live memory under the fingerprint of the screened text. -/
theorem duplicateOf_some (p : Principal) (db : Database) (scope : ScopeFilter) (screened : Screened)
    (force : Bool) (m : Memory) (found : duplicateOf env p db scope screened force = some m) :
    m ∈ MemoryRepo.liveRows p db ∧ m.inScope scope = true ∧
      m.contentHash = some (contentHash env screened.title screened.body) := by
  cases force with
  | true => simp [duplicateOf] at found
  | false =>
      simp only [duplicateOf, Bool.false_eq_true, if_false, fingerprint] at found
      split at found
      · exact MemoryRepo.findByContentHash_some p db scope _ m found
      · simp at found

/-! A property of single memories survives a call when the rows that the call makes have it. -/

variable {Q : Memory → Prop}

/-- A write keeps a property of all memories exactly when the row has it that it may store. -/
theorem everyMemory_write_iff (all : EveryMemory Q s.db) (payload : CreateMemoryInput)
    (embed force : Bool) (result : MemoryWrite)
    (done : write env p ctx s payload embed force = .ok (result, s'))
    (duplicated : ∀ m, Q m → Q (m.duplicated ctx.now payload.metadata)) {W : Prop}
    (created : ∀ mode tsConfig embedding id, inlineEmbedding env payload embed = .ok embedding →
      (Q { newRow env p ctx payload (screen env payload)
        (reviewDecision env payload (screen env payload) mode) tsConfig embedding with id := id } ↔ W)) :
    EveryMemory Q s'.db ↔ (result.deduped = false → W) := by
  rcases write_cases payload embed force result done with ⟨existing, folds⟩ | ⟨_, mode, tsConfig, _, stores⟩
  · have inside := (duplicateOf_some p s.db _ _ _ _ folds.duplicate).1
    rw [MemoryRepo.mem_liveRows] at inside
    rw [folds.updated, everyMemory_updateMemory s.db all existing inside.1, folds.deduped]
    exact ⟨fun _ fresh => absurd fresh (by simp), fun _ => duplicated existing (all existing inside.1)⟩
  · obtain ⟨embedding, embedded, inserted⟩ := stores.inserted
    obtain ⟨row, _, _, members⟩ := insertMemory_cases _ _ _ _ _ inserted
    rw [← created mode tsConfig embedding result.memory.id embedded, ← row, stores.deduped]
    constructor
    · exact fun after _ => after _ ((members _).mpr (Or.inr rfl))
    · intro own m inside
      rcases (members m).mp inside with old | rfl
      · exact all m old
      · exact own rfl

theorem everyMemory_write (all : EveryMemory Q s.db) (payload : CreateMemoryInput)
    (embed force : Bool) (result : MemoryWrite)
    (done : write env p ctx s payload embed force = .ok (result, s'))
    (duplicated : ∀ m, Q m → Q (m.duplicated ctx.now payload.metadata))
    (created : ∀ mode tsConfig embedding id, Q { newRow env p ctx payload (screen env payload)
      (reviewDecision env payload (screen env payload) mode) tsConfig embedding with id := id }) :
    EveryMemory Q s'.db := by
  apply (everyMemory_write_iff all payload embed force result done duplicated (W := True) ?_).mpr
  · exact fun _ => trivial
  · exact fun mode tsConfig embedding id _ => iff_true_intro (created mode tsConfig embedding id)

theorem everyMemory_touch (all : EveryMemory Q s.db) (db : Database) (publicId : Uuid) (m : Memory)
    (found : MemoryRepo.getByPublicId p s.db publicId = some m) (change : Memory → Memory)
    (keeps : ∀ m, ((change m).id, (change m).publicId) = (m.id, m.publicId))
    (same : Q m → Q (change m))
    (updated : db.memories = (s.db.updateMemory m.id change keeps).memories) : EveryMemory Q db := by
  have inside := (visible_of_getByPublicId p s.db publicId m found).1
  have after := (everyMemory_updateMemory s.db all m inside change keeps).mpr (same (all m inside))
  rw [EveryMemory] at after ⊢
  rwa [updated]

theorem everyMemory_delete (all : EveryMemory Q s.db) (publicId : Uuid) (result : Bool)
    (done : delete env p ctx s publicId = .ok (result, s'))
    (softDeleted : ∀ m, Q m → Q (m.softDeleted ctx.now)) : EveryMemory Q s'.db := by
  rcases delete_cases publicId result done with ⟨_, rfl⟩ | ⟨m, found, updated, _⟩
  · exact all
  · exact everyMemory_touch all _ publicId m found _ _ (softDeleted m) updated

theorem everyMemory_setPinned (all : EveryMemory Q s.db) (publicId : Uuid) (pinned : Bool)
    (result : Option Memory) (done : setPinned p ctx s publicId pinned = .ok (result, s'))
    (withPinned : ∀ m, Q m → Q (m.withPinned ctx.now pinned)) : EveryMemory Q s'.db := by
  rcases setPinned_cases publicId pinned result done with rfl | ⟨m, found, updated⟩
  · exact all
  · exact everyMemory_touch all _ publicId m found _ _ (withPinned m) (congrArg _ updated)

theorem everyMemory_review (all : EveryMemory Q s.db) (publicId : Uuid) (approve : Bool)
    (result : Option Memory) (done : review env p ctx s publicId approve = .ok (result, s'))
    (withReview : ∀ m status, Q m → Q (m.withReview ctx.now status p.userId)) :
    EveryMemory Q s'.db := by
  rcases review_cases publicId approve result done with rfl | ⟨m, status, found, _, updated, _⟩
  · exact all
  · exact everyMemory_touch all _ publicId m found _ _ (withReview m status) updated

/-- An update keeps a property of all memories exactly when the edited memory has it. -/
theorem everyMemory_update (all : EveryMemory Q s.db) (publicId : Uuid) (patch : MemoryPatch)
    (result : Option Memory) (done : update p ctx s publicId patch = .ok (result, s')) :
    EveryMemory Q s'.db ↔
      ∀ m, Edits p ctx.now s.db publicId patch m → Q (m.patched ctx.now patch) := by
  have exactly (m : Memory) (edits : Edits p ctx.now s.db publicId patch m) :=
    everyMemory_updateMemory s.db all m (visible_of_getByPublicId p s.db publicId m edits.found).1
      (Memory.patched ctx.now patch) (Memory.patched_ident ctx.now patch)
  rcases update_cases publicId patch result done with ⟨absent, rfl⟩ | ⟨m, edits, updated⟩
  · refine ⟨fun _ m edits => ?_, fun _ => all⟩
    rw [edits.found] at absent
    exact absurd absent (by simp)
  · rw [updated, exactly m edits]
    refine ⟨fun own m' edits' => ?_, fun own => own m edits⟩
    rw [Option.some.inj (edits'.found.symm.trans edits.found)]
    exact own

theorem eq_ok_afterCall {A : Type} (s : Session) (result : Except ServiceError (A × Session)) (a : A)
    (done : result.toOption.map Prod.fst = some a) : result = .ok (a, afterCall s result) := by
  cases result with
  | error e => exact absurd done (by simp [Except.toOption])
  | ok result =>
      obtain ⟨b, s'⟩ := result
      obtain rfl := Option.some.inj done
      rfl

/-- A hash function that a table gives on some texts and that marks all others. -/
def tableHash (table : Dict Str Str) (s : Str) : Str := (Dict.get? table s).getD ('!' :: s)

theorem tableHash_injective (table : Dict Str Str)
    (distinct : table.Pairwise fun a b => a.2 ≠ b.2)
    (unmarked : ∀ entry ∈ table, entry.2.head? ≠ some '!') : Function.Injective (tableHash table) := by
  intro s t same
  simp only [tableHash] at same
  cases first : Dict.get? table s with
  | none =>
      cases second : Dict.get? table t with
      | none =>
          rw [first, second] at same
          exact (List.cons.inj same).2
      | some v =>
          rw [first, second] at same
          exact absurd (congrArg List.head? same.symm) (unmarked _ (Dict.mem_of_get? table t v second))
  | some u =>
      have inside := Dict.mem_of_get? table s u first
      cases second : Dict.get? table t with
      | none =>
          rw [first, second] at same
          exact absurd (congrArg List.head? same) (unmarked _ inside)
      | some v =>
          rw [first, second] at same
          have inside' := Dict.mem_of_get? table t v second
          by_contra different
          have symmetric : Std.Symm fun a b : Str × Str => a.2 ≠ b.2 := ⟨fun _ _ => Ne.symm⟩
          exact distinct.forall inside inside' (fun equal => different (Prod.mk.inj equal).1) same

/-- These are the SHA-256 hashes of the texts that the samples fingerprint. -/
def sampleHashes : Dict Str Str :=
  [(fieldSeparator :: "x".toList, "0a08c67db8521ee05067b1e381a033b6c298a4c4d9d63b14dba8dc2ec8258296"),
    (fieldSeparator :: "y".toList, "10ed9efd9ccdacec382ad47277a28e9709f34728495477ea1dac9cba9eedcd64"),
    ("/memories/a".toList ++ [fieldSeparator, 'x'],
      "9b5080b53914f75ed838e6799da9fe5c0bb8b64f5c7d88b5e821dc9e288394f9")]

theorem sampleHashes_injective : Function.Injective (tableHash sampleHashes) :=
  tableHash_injective sampleHashes (by decide) (by decide)

def sampleEnvironment : Environment := .ascii (tableHash sampleHashes)

/-- The principal of the samples owns everything. -/
def sampleOwner : Principal where
  actorId := 1
  actorKind := .user
  orgId := 1
  isSuperuser := true

def sampleScope : ScopeFilter := ⟨.workspace, 1⟩

end MemoryService
end Kortex
