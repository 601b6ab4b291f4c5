import Kortex.Library.Run
import Kortex.Model.MemoryLinks
import Kortex.Proof.ReadPaths

/-
This file proves when edits leave alone the memories that their principal may not write.
-/

namespace Kortex.MemoryService

variable {env : Environment} {p : Principal} {ctx : CallContext} {s s' : Session}

/-- The principal may not write the memory. -/
def Locked (p : Principal) (m : Memory) : Prop :=
  p.hasKeyScope "write:memory" = false ∨
    AccessControl.canWrite p ⟨⟨m.scopeType, m.scopeId⟩, m.sensitivity⟩ = false

/-- The memory is as it was, in what its readers see of it. -/
structure SameMemory (m m' : Memory) : Prop where
  id : m'.id = m.id
  title : m'.title = m.title
  body : m'.body = m.body
  metadata : m'.metadata = m.metadata
  pinned : m'.pinned = m.pinned
  sensitivity : m'.sensitivity = m.sensitivity
  reviewStatus : m'.reviewStatus = m.reviewStatus
  accessCount : m'.accessCount = m.accessCount
  lastAccessedAt : m'.lastAccessedAt = m.lastAccessedAt
  live : m'.live = m.live

/-- The same links touch the memory. -/
def SameLinks (db db' : Database) (m : Memory) : Prop :=
  ∀ link, link.touches m.id = true → (link ∈ db'.links ↔ link ∈ db.links)

/-- Every memory of the initial state that the principal may not write is as it was. -/
def Guarded (p : Principal) (start : Database) (s : Session) : Prop :=
  ∀ m ∈ start.memories.rows, Locked p m →
    (∃ m' ∈ s.db.memories.rows, SameMemory m m') ∧ SameLinks start s.db m

/-- The rows of these memories are not touched at all. -/
def Untouched (p : Principal) (start : Database) (s : Session) : Prop :=
  ∀ m ∈ start.memories.rows, Locked p m → m ∈ s.db.memories.rows ∧ SameLinks start s.db m

theorem guarded_of_untouched (start : Database) (s : Session) (untouched : Untouched p start s) :
    Guarded p start s := by
  intro m present locked
  obtain ⟨kept, links⟩ := untouched m present locked
  exact ⟨⟨m, kept, rfl, rfl, rfl, rfl, rfl, rfl, rfl, rfl, rfl, rfl⟩, links⟩

/-! Every call but a fold leaves the locked rows alone. -/

/-- The step leaves the links alone, and every memory that the principal may not write. -/
structure Spares (p : Principal) (db db' : Database) : Prop where
  links : db'.links = db.links
  rows : ∀ m ∈ db.memories.rows, Locked p m → m ∈ db'.memories.rows

theorem Spares.refl (p : Principal) (db : Database) : Spares p db db :=
  ⟨rfl, fun _ present _ => present⟩

theorem Spares.trans {db db' db'' : Database} (first : Spares p db db') (second : Spares p db' db'') :
    Spares p db db'' :=
  ⟨second.links.trans first.links,
    fun m present locked => second.rows m (first.rows m present locked) locked⟩

theorem requireWrite_eq_ok (m : Memory) (u : Unit) : requireWrite p m = .ok u ↔
    AccessControl.canWrite p ⟨⟨m.scopeType, m.scopeId⟩, m.sensitivity⟩ = true := by
  simp only [requireWrite]
  split
  · rename_i allowed
    simp [allowed]
  · rename_i denied
    simp [denied]

theorem not_locked_of_checks (m : Memory) (u : Unit)
    (scope : requireScope p "write:memory" = .ok u) (write : requireWrite p m = .ok u) :
    ¬ Locked p m := by
  rw [requireScope_eq_ok] at scope
  rw [requireWrite_eq_ok] at write
  rintro (missing | denied)
  · rw [missing] at scope
    exact absurd scope (by simp)
  · rw [denied] at write
    exact absurd write (by simp)

/-- An update of a row that the principal may write spares all others. -/
theorem spares_updateMemory (db : Database) (m : Memory) (present : m ∈ db.memories.rows)
    (unlocked : ¬ Locked p m) (change : Memory → Memory)
    (keeps : ∀ m, ((change m).id, (change m).publicId) = (m.id, m.publicId)) :
    Spares p db (db.updateMemory m.id change keeps) := by
  refine ⟨rfl, fun other inside locked => ?_⟩
  rw [mem_updateMemory db m present]
  exact Or.inl ⟨inside, fun same => unlocked (same ▸ locked)⟩

theorem auditMemory_links (db db' : Database) (action : Str) (m : Memory) (metadata : JsonDict)
    (done : auditMemory env p ctx db action m metadata = .ok db') : db'.links = db.links := by
  simp only [auditMemory] at done
  split at done <;> simp only [Except.ok.injEq, reduceCtorEq] at done
  rw [← done]

theorem spares_auditMemory (db db' : Database) (action : Str) (m : Memory) (metadata : JsonDict)
    (done : auditMemory env p ctx db action m metadata = .ok db') : Spares p db db' := by
  refine ⟨auditMemory_links db db' action m metadata done, fun other present _ => ?_⟩
  rwa [auditMemory_memories db db' action m metadata done]

theorem spares_update (publicId : Uuid) (patch : MemoryPatch) (result : Option Memory)
    (done : update p ctx s publicId patch = .ok (result, s')) : Spares p s.db s'.db := by
  rcases update_cases publicId patch result done with ⟨_, rfl⟩ | ⟨m, edits, updated⟩
  · exact Spares.refl p _
  · rw [updated]
    exact spares_updateMemory s.db m (visible_of_getByPublicId p s.db publicId m edits.found).1
      (not_locked_of_checks m () edits.scope edits.write) _ _

theorem spares_delete (publicId : Uuid) (result : Bool)
    (done : delete env p ctx s publicId = .ok (result, s')) : Spares p s.db s'.db := by
  simp only [delete, bind_eq_ok] at done
  obtain ⟨_, scope, done⟩ := done
  split at done
  · obtain ⟨_, rfl⟩ := Prod.mk.inj (Except.ok.inj done)
    exact Spares.refl p _
  · rename_i m found
    simp only [bind_eq_ok] at done
    obtain ⟨_, write, db, audited, same⟩ := done
    obtain ⟨_, rfl⟩ := Prod.mk.inj (Except.ok.inj same)
    exact (spares_updateMemory s.db m (visible_of_getByPublicId p s.db publicId m found).1
      (not_locked_of_checks m () scope write) _ _).trans (spares_auditMemory _ _ _ _ _ audited)

theorem spares_setPinned (publicId : Uuid) (pinned : Bool) (result : Option Memory)
    (done : setPinned p ctx s publicId pinned = .ok (result, s')) : Spares p s.db s'.db := by
  simp only [setPinned, bind_eq_ok] at done
  obtain ⟨_, scope, done⟩ := done
  split at done
  · obtain ⟨_, rfl⟩ := Prod.mk.inj (Except.ok.inj done)
    exact Spares.refl p _
  · rename_i m found
    simp only [bind_eq_ok] at done
    obtain ⟨_, write, same⟩ := done
    obtain ⟨_, rfl⟩ := Prod.mk.inj (Except.ok.inj same)
    exact spares_updateMemory s.db m (visible_of_getByPublicId p s.db publicId m found).1
      (not_locked_of_checks m () scope write) _ _

theorem spares_review (publicId : Uuid) (approve : Bool) (result : Option Memory)
    (done : review env p ctx s publicId approve = .ok (result, s')) : Spares p s.db s'.db := by
  simp only [review, bind_eq_ok] at done
  obtain ⟨_, scope, done⟩ := done
  split at done
  · obtain ⟨_, rfl⟩ := Prod.mk.inj (Except.ok.inj done)
    exact Spares.refl p _
  · rename_i m found
    simp only [bind_eq_ok] at done
    obtain ⟨_, write, done⟩ := done
    split at done
    · obtain ⟨_, rfl⟩ := Prod.mk.inj (Except.ok.inj done)
      exact Spares.refl p _
    · simp only [bind_eq_ok] at done
      obtain ⟨db, audited, same⟩ := done
      obtain ⟨_, rfl⟩ := Prod.mk.inj (Except.ok.inj same)
      exact (spares_updateMemory s.db m (visible_of_getByPublicId p s.db publicId m found).1
        (not_locked_of_checks m () scope write) _ _).trans (spares_auditMemory _ _ _ _ _ audited)

theorem spares_applyOne (action : Str) (publicId : Uuid) (changed : Bool)
    (done : applyOne env p ctx action s publicId = .ok (changed, s')) : Spares p s.db s'.db := by
  rw [applyOne] at done
  split at done
  · rw [mapFst_eq_ok _ Option.isSome] at done
    obtain ⟨result, done, _⟩ := done
    exact spares_setPinned publicId true result done
  · split at done
    · rw [mapFst_eq_ok _ Option.isSome] at done
      obtain ⟨result, done, _⟩ := done
      exact spares_setPinned publicId false result done
    · split at done
      · exact spares_delete publicId changed done
      · exact absurd done (by simp)

theorem spares_bulkApply (action : Str) (publicIds : List Uuid) (count : Nat)
    (done : bulkApply env p ctx action s publicIds = .ok (count, s')) : Spares p s.db s'.db := by
  induction publicIds generalizing s count with
  | nil =>
      obtain ⟨_, rfl⟩ := Prod.mk.inj (Except.ok.inj done)
      exact Spares.refl p _
  | cons publicId rest ih =>
      simp only [bulkApply, bind_eq_ok] at done
      obtain ⟨⟨changed, middle⟩, one, ⟨count', final⟩, others, same⟩ := done
      obtain ⟨_, rfl⟩ := Prod.mk.inj (Except.ok.inj same)
      exact (spares_applyOne action publicId changed one).trans (ih count' others)

theorem spares_stores (payload : CreateMemoryInput) (embed : Bool) (screened : Screened)
    (review : ReviewDecision) (tsConfig : Str) (result : MemoryWrite)
    (stores : Stores env p ctx s s' payload embed screened review tsConfig result) :
    Spares p s.db s'.db := by
  obtain ⟨embedding, _, inserted⟩ := stores.inserted
  refine ⟨insertMemory_links _ _ _ _ _ inserted, fun m present _ => ?_⟩
  exact ((insertMemory_cases _ _ _ _ _ inserted).2.2.2 m).mpr (Or.inl present)

/-- A write either spares the locked memories, or folds into the memory that it finds. -/
theorem spares_or_folds (payload : CreateMemoryInput) (embed force : Bool) (result : MemoryWrite)
    (done : write env p ctx s payload embed force = .ok (result, s')) :
    Spares p s.db s'.db ∨ ∃ m, FoldsInto env p ctx s.db payload force m ∧
      s'.db = s.db.updateMemory m.id (Memory.duplicated ctx.now payload.metadata)
        (Memory.duplicated_ident ctx.now payload.metadata) := by
  rcases write_cases payload embed force result done with ⟨m, folds⟩ | ⟨_, _, _, _, stores⟩
  · exact Or.inr ⟨m, foldsInto_of_folds payload embed force result m done folds, folds.updated⟩
  · exact Or.inl (spares_stores payload embed _ _ _ result stores)

/-- The edit changes this memory without asking for the right to write it. -/
def Reaches (env : Environment) (p : Principal) (ctx : CallContext) (db : Database) (m : Memory) :
    Edit → Prop
  | .call (.write payload _ force) => FoldsInto env p ctx db payload force m
  | .link fromPublicId toPublicId linkType _ => ∃ a b,
      MemoryRepo.getByPublicId p db fromPublicId = some a ∧
        MemoryRepo.getByPublicId p db toPublicId = some b ∧
          db.links.any (MemoryLinkRepo.hasKey a.id b.id linkType) = false ∧ (m = a ∨ m = b)
  | .unlink fromPublicId toPublicId linkType => ∃ a b,
      MemoryRepo.getByPublicId p db fromPublicId = some a ∧
        MemoryRepo.getByPublicId p db toPublicId = some b ∧
          db.links.any (MemoryLinkRepo.hasKey a.id b.id linkType) = true ∧ (m = a ∨ m = b)
  | _ => False

/-- The edit reaches no memory of the initial state that the principal may not write. -/
def AvoidsLocked (env : Environment) (p : Principal) (start : Database) (s : Session)
    (r : EditRequest) : Prop :=
  ∀ m ∈ start.memories.rows, Locked p m → ¬ Reaches env p r.context s.db m r.edit

/-! Linking checks nothing but that both ends are there. -/

theorem link_of_fresh (fromPublicId toPublicId : Uuid) (linkType : MemoryLinkType) (weight : PyFloat)
    (a b : Memory) (first : MemoryRepo.getByPublicId p s.db fromPublicId = some a)
    (second : MemoryRepo.getByPublicId p s.db toPublicId = some b)
    (fresh : s.db.links.any (MemoryLinkRepo.hasKey a.id b.id linkType) = false) :
    link p ctx s fromPublicId toPublicId linkType weight =
      .ok (some ⟨a.id, b.id, linkType, weight, ctx.now⟩, { s with db := { s.db with
        links := s.db.links ++ [⟨a.id, b.id, linkType, weight, ctx.now⟩] } }) := by
  simp only [link, first, second, MemoryLinkRepo.link, fresh, flush, bind, Except.bind]
  rfl

theorem link_cases (fromPublicId toPublicId : Uuid) (linkType : MemoryLinkType) (weight : PyFloat)
    (result : Option MemoryLink)
    (done : link p ctx s fromPublicId toPublicId linkType weight = .ok (result, s')) :
    s' = s ∨ ∃ a b, MemoryRepo.getByPublicId p s.db fromPublicId = some a ∧
      MemoryRepo.getByPublicId p s.db toPublicId = some b ∧
        s.db.links.any (MemoryLinkRepo.hasKey a.id b.id linkType) = false := by
  rw [link] at done
  split at done
  · rename_i a b first second
    simp only [bind_eq_ok, flush_eq_ok, MemoryLinkRepo.link] at done
    obtain ⟨_, linked, _⟩ := done
    split at linked
    · exact absurd linked (by simp)
    · rename_i fresh
      exact Or.inr ⟨a, b, first, second, by simpa using fresh⟩
  · exact Or.inl (Prod.mk.inj (Except.ok.inj done)).2.symm

theorem unlink_of_linked (fromPublicId toPublicId : Uuid) (linkType : MemoryLinkType)
    (a b : Memory) (first : MemoryRepo.getByPublicId p s.db fromPublicId = some a)
    (second : MemoryRepo.getByPublicId p s.db toPublicId = some b)
    (linked : s.db.links.any (MemoryLinkRepo.hasKey a.id b.id linkType) = true) :
    unlink p s fromPublicId toPublicId linkType = .ok (true, { s with db := { s.db with
      links := s.db.links.filter fun link => !MemoryLinkRepo.hasKey a.id b.id linkType link } }) := by
  simp only [unlink, first, second, MemoryLinkRepo.unlink, linked, if_true]
  rfl

theorem unlink_cases (fromPublicId toPublicId : Uuid) (linkType : MemoryLinkType) (result : Bool)
    (done : unlink p s fromPublicId toPublicId linkType = .ok (result, s')) :
    s' = s ∨ ∃ a b, MemoryRepo.getByPublicId p s.db fromPublicId = some a ∧
      MemoryRepo.getByPublicId p s.db toPublicId = some b ∧
        s.db.links.any (MemoryLinkRepo.hasKey a.id b.id linkType) = true := by
  rw [unlink] at done
  split at done
  · rename_i a b first second
    by_cases linked : s.db.links.any (MemoryLinkRepo.hasKey a.id b.id linkType) = true
    · exact Or.inr ⟨a, b, first, second, linked⟩
    · simp only [MemoryLinkRepo.unlink, if_neg linked] at done
      exact Or.inl (Prod.mk.inj (Except.ok.inj done)).2.symm
  · exact Or.inl (Prod.mk.inj (Except.ok.inj done)).2.symm

/-- This is what an edit does that does not ask for the right to write. -/
inductive Unasked (env : Environment) (p : Principal) (ctx : CallContext) (db : Database) :
    Edit → Database → Prop where
  | fold (payload : CreateMemoryInput) (embed force : Bool) (m : Memory)
      (folds : FoldsInto env p ctx db payload force m) :
      Unasked env p ctx db (.call (.write payload embed force)) (db.updateMemory m.id
        (Memory.duplicated ctx.now payload.metadata) (Memory.duplicated_ident ctx.now payload.metadata))
  | link (fromPublicId toPublicId : Uuid) (linkType : MemoryLinkType) (weight : PyFloat) (a b : Memory)
      (first : MemoryRepo.getByPublicId p db fromPublicId = some a)
      (second : MemoryRepo.getByPublicId p db toPublicId = some b)
      (fresh : db.links.any (MemoryLinkRepo.hasKey a.id b.id linkType) = false) :
      Unasked env p ctx db (.link fromPublicId toPublicId linkType weight)
        { db with links := db.links ++ [⟨a.id, b.id, linkType, weight, ctx.now⟩] }
  | unlink (fromPublicId toPublicId : Uuid) (linkType : MemoryLinkType) (a b : Memory)
      (first : MemoryRepo.getByPublicId p db fromPublicId = some a)
      (second : MemoryRepo.getByPublicId p db toPublicId = some b)
      (linked : db.links.any (MemoryLinkRepo.hasKey a.id b.id linkType) = true) :
      Unasked env p ctx db (.unlink fromPublicId toPublicId linkType)
        { db with links := db.links.filter fun link => !MemoryLinkRepo.hasKey a.id b.id linkType link }

/-- A call spares the locked memories, unless it is a write that folds. -/
theorem perform_spares (call : Call) (result : Outcome)
    (done : perform env p ctx s call = .ok (result, s')) :
    Spares p s.db s'.db ∨ Unasked env p ctx s.db (.call call) s'.db := by
  cases call with
  | write payload embed force =>
      simp only [perform, mapFst_eq_ok] at done
      obtain ⟨written, done, _⟩ := done
      apply (spares_or_folds payload embed force written done).imp_right
      rintro ⟨m, folds, same⟩
      rw [same]
      exact Unasked.fold payload embed force m folds
  | update publicId patch =>
      simp only [perform, mapFst_eq_ok] at done
      obtain ⟨row, done, _⟩ := done
      exact Or.inl (spares_update publicId patch row done)
  | setPinned publicId pinned =>
      simp only [perform, mapFst_eq_ok] at done
      obtain ⟨row, done, _⟩ := done
      exact Or.inl (spares_setPinned publicId pinned row done)
  | review publicId approve =>
      simp only [perform, mapFst_eq_ok] at done
      obtain ⟨row, done, _⟩ := done
      exact Or.inl (spares_review publicId approve row done)
  | delete publicId =>
      simp only [perform, mapFst_eq_ok] at done
      obtain ⟨row, done, _⟩ := done
      exact Or.inl (spares_delete publicId row done)

/-- An edit that fails leaves the database as it is. -/
theorem afterCall_cases {A : Type} (s : Session) (result : Except ServiceError (A × Session)) :
    (afterCall s result).db = s.db ∨ ∃ value s', result = .ok (value, s') ∧ afterCall s result = s' := by
  cases result with
  | error e => exact Or.inl rfl
  | ok pair => exact Or.inr ⟨pair.1, pair.2, rfl, rfl⟩

theorem editStep_cases (env : Environment) (p : Principal) (s : Session) (r : EditRequest) :
    Spares p s.db (editStep env p s r).db ∨
      Unasked env p r.context s.db r.edit (editStep env p s r).db := by
  obtain ⟨ctx, newService, edit⟩ := r
  rw [← renew_db s newService]
  cases edit with
  | call call =>
      rcases afterCall_cases (Session.renew s newService)
        (perform env p ctx (Session.renew s newService) call) with same | ⟨value, s', done, same⟩
      · simp only [editStep, same]
        exact Or.inl (Spares.refl p _)
      · simp only [editStep, same]
        exact perform_spares call value done
  | bulkApply action publicIds =>
      rcases afterCall_cases (Session.renew s newService)
        (bulkApply env p ctx action (Session.renew s newService) publicIds) with
        same | ⟨value, s', done, same⟩
      · simp only [editStep, same]
        exact Or.inl (Spares.refl p _)
      · simp only [editStep, same]
        exact Or.inl (spares_bulkApply action publicIds value done)
  | link fromPublicId toPublicId linkType weight =>
      rcases afterCall_cases (Session.renew s newService) (link p ctx (Session.renew s newService)
        fromPublicId toPublicId linkType weight) with same | ⟨value, s', done, same⟩
      · simp only [editStep, same]
        exact Or.inl (Spares.refl p _)
      · rcases link_cases _ _ _ _ _ done with rfl | ⟨a, b, first, second, fresh⟩
        · simp only [editStep, same]
          exact Or.inl (Spares.refl p _)
        · simp only [editStep, link_of_fresh _ _ _ _ a b first second fresh, afterCall]
          exact Or.inr (Unasked.link _ _ _ _ a b first second fresh)
  | unlink fromPublicId toPublicId linkType =>
      rcases afterCall_cases (Session.renew s newService) (unlink p (Session.renew s newService)
        fromPublicId toPublicId linkType) with same | ⟨value, s', done, same⟩
      · simp only [editStep, same]
        exact Or.inl (Spares.refl p _)
      · rcases unlink_cases _ _ _ _ done with rfl | ⟨a, b, first, second, linked⟩
        · simp only [editStep, same]
          exact Or.inl (Spares.refl p _)
        · simp only [editStep, unlink_of_linked _ _ _ a b first second linked, afterCall]
          exact Or.inr (Unasked.unlink _ _ _ a b first second linked)

/-- An edit that reaches a memory goes through. -/
theorem unasked_of_reaches (env : Environment) (p : Principal) (s : Session) (r : EditRequest)
    (m : Memory) (reaches : Reaches env p r.context s.db m r.edit) :
    Unasked env p r.context s.db r.edit (editStep env p s r).db := by
  obtain ⟨ctx, newService, edit⟩ := r
  rw [← renew_db s newService] at reaches ⊢
  cases edit with
  | call call =>
      cases call with
      | write payload embed force =>
          obtain ⟨service, done⟩ := write_of_foldsInto payload embed force m reaches
          simp only [editStep, perform, done, Except.map, afterCall]
          exact Unasked.fold payload embed force m reaches
      | update | setPinned | review | delete => exact False.elim reaches
  | bulkApply => exact False.elim reaches
  | link fromPublicId toPublicId linkType weight =>
      obtain ⟨a, b, first, second, fresh, _⟩ := reaches
      simp only [editStep, link_of_fresh _ _ _ _ a b first second fresh, afterCall]
      exact Unasked.link _ _ _ _ a b first second fresh
  | unlink fromPublicId toPublicId linkType =>
      obtain ⟨a, b, first, second, linked, _⟩ := reaches
      simp only [editStep, unlink_of_linked _ _ _ a b first second linked, afterCall]
      exact Unasked.unlink _ _ _ a b first second linked

theorem untouched_of_spares (start : Database) (untouched : Untouched p start s)
    (spares : Spares p s.db s'.db) : Untouched p start s' := by
  intro m present locked
  obtain ⟨kept, links⟩ := untouched m present locked
  refine ⟨spares.rows m kept locked, fun link touches => ?_⟩
  rw [spares.links]
  exact links link touches

theorem eq_of_getByPublicId (db : Database) (publicId : Uuid) (a m : Memory)
    (found : MemoryRepo.getByPublicId p db publicId = some a) (present : m ∈ db.memories.rows)
    (same : a.id = m.id) : m = a :=
  memory_eq_of_id db m a present (visible_of_getByPublicId p db publicId a found).1 same.symm

theorem touches_iff (link : MemoryLink) (memoryId : Nat) :
    link.touches memoryId = true ↔ link.fromMemoryId = memoryId ∨ link.toMemoryId = memoryId := by
  simp [MemoryLink.touches]

theorem hasKey_iff (a b : Nat) (linkType : MemoryLinkType) (link : MemoryLink) :
    MemoryLinkRepo.hasKey a b linkType link = true ↔
      link.fromMemoryId = a ∧ link.toMemoryId = b ∧ link.linkType = linkType := by
  simp [MemoryLinkRepo.hasKey, and_assoc]

/-- An edit that reaches no locked memory leaves them all untouched. -/
theorem untouched_of_avoids (start : Database) (s : Session) (r : EditRequest)
    (untouched : Untouched p start s) (avoids : AvoidsLocked env p start s r) :
    Untouched p start (editStep env p s r) := by
  rcases editStep_cases env p s r with spares | unasked
  · exact untouched_of_spares start untouched spares
  · intro m present locked
    obtain ⟨kept, links⟩ := untouched m present locked
    have unreached := avoids m present locked
    generalize (editStep env p s r).db = db' at unasked ⊢
    obtain ⟨ctx, newService, edit⟩ := r
    cases unasked with
    | fold payload embed force existing folds =>
        have inside := (duplicateOf_some p s.db _ _ _ _ folds.duplicate).1
        rw [MemoryRepo.mem_liveRows] at inside
        refine ⟨(mem_updateMemory s.db existing inside.1 _ _ m).mpr (Or.inl ⟨kept, ?_⟩), links⟩
        rintro rfl
        exact unreached folds
    | link x y linkType weight a b first second fresh =>
        refine ⟨kept, fun link touches => ?_⟩
        rw [← links link touches, List.mem_append, List.mem_singleton]
        refine ⟨fun either => either.resolve_right ?_, Or.inl⟩
        -- A new link that touches the memory has it as an end.
        rintro rfl
        rcases (touches_iff _ _).mp touches with same | same
        · exact unreached ⟨a, b, first, second, fresh,
            Or.inl (eq_of_getByPublicId s.db x a m first kept same)⟩
        · exact unreached ⟨a, b, first, second, fresh,
            Or.inr (eq_of_getByPublicId s.db y b m second kept same)⟩
    | unlink x y linkType a b first second linked =>
        refine ⟨kept, fun link touches => ?_⟩
        rw [← links link touches, List.mem_filter]
        refine ⟨fun inside => inside.1, fun inside => ⟨inside, ?_⟩⟩
        by_contra deleted
        obtain ⟨fromA, toB, _⟩ := (hasKey_iff a.id b.id linkType link).mp (by simpa using deleted)
        rcases (touches_iff _ _).mp touches with same | same
        · exact unreached ⟨a, b, first, second, linked,
            Or.inl (eq_of_getByPublicId s.db x a m first kept (fromA.symm.trans same))⟩
        · exact unreached ⟨a, b, first, second, linked,
            Or.inr (eq_of_getByPublicId s.db y b m second kept (toB.symm.trans same))⟩

/-- An edit that reaches a locked memory changes its access statistics or its links. -/
theorem avoids_of_guarded (start : Database) (s : Session) (r : EditRequest)
    (untouched : Untouched p start s) (guarded : Guarded p start (editStep env p s r)) :
    AvoidsLocked env p start s r := by
  intro m present locked reaches
  obtain ⟨kept, links⟩ := untouched m present locked
  obtain ⟨⟨m', inside, same⟩, links'⟩ := guarded m present locked
  have unasked := unasked_of_reaches env p s r m reaches
  generalize (editStep env p s r).db = db' at unasked inside links'
  obtain ⟨ctx, newService, edit⟩ := r
  cases unasked with
  | fold payload embed force existing folds =>
      have found : existing = m := by
        have duplicate := reaches.duplicate
        rw [folds.duplicate] at duplicate
        exact Option.some.inj duplicate
      subst found
      rcases (mem_updateMemory s.db existing kept _ _ m').mp inside with ⟨old, other⟩ | rfl
      · exact other (memory_eq_of_id s.db m' existing old kept same.id)
      · have counted : existing.accessCount + 1 = existing.accessCount := same.accessCount
        omega
  | link x y linkType weight a b first second fresh =>
      obtain ⟨a', b', first', second', _, ends⟩ := reaches
      obtain rfl : a = a' := Option.some.inj (first.symm.trans first')
      obtain rfl : b = b' := Option.some.inj (second.symm.trans second')
      have touches : (⟨a.id, b.id, linkType, weight, ctx.now⟩ : MemoryLink).touches m.id = true := by
        rw [touches_iff]
        exact ends.imp (fun equal => congrArg Memory.id equal.symm)
          fun equal => congrArg Memory.id equal.symm
      have stored := (links' _ touches).mp (List.mem_append_right _ (List.mem_singleton.mpr rfl))
      have clash := List.any_eq_false.mp fresh _ ((links _ touches).mpr stored)
      exact clash ((hasKey_iff _ _ _ _).mpr ⟨rfl, rfl, rfl⟩)
  | unlink x y linkType a b first second linked =>
      obtain ⟨a', b', first', second', _, ends⟩ := reaches
      obtain rfl : a = a' := Option.some.inj (first.symm.trans first')
      obtain rfl : b = b' := Option.some.inj (second.symm.trans second')
      obtain ⟨link, stored, key⟩ := List.any_eq_true.mp linked
      obtain ⟨fromA, toB, _⟩ := (hasKey_iff _ _ _ _).mp key
      have touches : link.touches m.id = true := by
        rw [touches_iff, fromA, toB]
        exact ends.imp (fun equal => congrArg Memory.id equal.symm)
          fun equal => congrArg Memory.id equal.symm
      have kept := (links' link touches).mpr ((links link touches).mp stored)
      have remains := (List.mem_filter.mp kept).2
      rw [key] at remains
      exact absurd remains (by simp)

/-- A run of edits leaves all memories alone that the principal may not write, exactly when no write
folds into one of them, and no linking or unlinking has one of them as an end. -/
theorem guarded_run_iff (env : Environment) (p : Principal) (start : Session)
    (edits : List EditRequest) :
    Run.Always (editStep env p) (Guarded p start.db) start edits ↔
      Run.Each (editStep env p) (AvoidsLocked env p start.db) start edits := by
  apply Run.always_iff_each_of_strong (S := Untouched p start.db)
  · exact guarded_of_untouched start.db
  · exact fun s r _ untouched guarded => avoids_of_guarded start.db s r untouched guarded
  · exact fun s r _ untouched avoids => untouched_of_avoids start.db s r untouched avoids
  · exact fun m present _ => ⟨present, fun _ _ => Iff.rfl⟩

/-- This principal may read the workspace of the samples, and write nothing. -/
def sampleViewer : Principal where
  actorId := 3
  actorKind := .user
  orgId := 1
  roles := [(⟨.workspace, 1⟩, .viewer)]

def sampleUnlink : EditRequest where
  context := { now := 5, newPublicId := 9 }
  newService := true
  edit := .unlink 1 2 .related

/-- A viewer removes the link between two memories. -/
theorem viewer_unlinks_memories :
    ¬ ∀ (env : Environment) (p : Principal) (start : Session) (edits : List EditRequest),
      Guarded p start.db (Run.final (editStep env p) start edits) := by
  intro claim
  have guarded := claim sampleEnvironment sampleViewer ⟨AgentLoop.sampleLinked, {}⟩ [sampleUnlink]
  obtain ⟨_, links⟩ := guarded (AgentLoop.sampleMemory 1 "x" .approved) List.mem_cons_self
    (Or.inr (by decide))
  have kept := (links ⟨1, 2, .related, onePointZero, 0⟩ (by decide)).mpr List.mem_cons_self
  exact absurd kept (by decide)

end Kortex.MemoryService
